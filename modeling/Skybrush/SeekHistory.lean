import Skybrush.BytecodePlayer
import Skybrush.CommandSchedule

/-!
# Seeking and the History of a Player

What a player shows for a time does not depend on the calls that were made on it before,
except for calls that asked for the very same time immediately before: a step executes at
most one command, so every repetition of a seek to the same time executes one more command
that is due then.

The argument is one about the player over the light machine. A step at which no command is
due is absorbed by any later one, and a step at which one is due is the step that the loop
of a later seek would have made itself; so a player that has stepped to `s` and one that
has not reach the same state at any later time. The loop of a fresh player follows the schedule of
its program, so the schedule tells which commands the repetitions execute.

## Main results

* `LightPlayer.exists_onSchedule_of_loopsTo`: the loop of a fresh player follows the schedule.
* `LightPlayer.lands_stepToTarget`: a step to an earlier time does not change where a seek
  lands.
* `LightPlayer.Landed.seek`: after any seek, a player is where a fresh one would be that
  stepped to the same time once more for each repetition.
* `seek_history_iff`: a player shows what a fresh one shows exactly when the commands that are
  still due at that time, one for each repetition, show nothing new.
-/

namespace Skybrush

open WhileLoop

namespace LightPlayer

variable (F : Rounding) (code : BytecodeStore)

/-- The loop of a seek to `t`, started in `p`, stops in `q`. -/
def LoopsTo (t : ℕ) (p q : LightPlayer) : Prop :=
  Reaches (Behind t) (stepToNext F code) p q

/-- A seek from `p` to `t` lands in state `st`. -/
def Lands (t : ℕ) (p : LightPlayer) (st : LightState) : Prop :=
  ∃ q, LoopsTo F code t p q ∧ q.state.step F code t = st

/-- The next timestamp of a running program is its wakeup time. -/
def Synced (p : LightPlayer) : Prop :=
  p.state.control.ended = false → p.next = p.state.control.wakeup

theorem synced_start : (start code).Synced := fun _ => rfl

/-- The body of the loop keeps the player synced. -/
theorem Synced.stepToNext {p : LightPlayer} (h : p.Synced) :
    (p.stepToNext F code).Synced := by
  intro hrun
  have hbefore : p.state.control.ended = false := LightState.ended_of_step F code hrun
  have hmono := Control.wakeup_step F code hbefore p.next
  rw [← LightState.control_step, ← h hbefore] at hmono
  exact if_neg (Nat.not_lt.mpr hmono)

theorem synced_stepToTarget (t : ℕ) (p : LightPlayer) : (p.stepToTarget F code t).Synced :=
  fun _ => rfl

/-! ### Programs that have ended -/

/-- Behind the end of the program, the loop changes nothing that the last step shows. -/
theorem step_of_loopsTo_ended {t : ℕ} {p q : LightPlayer} (h : LoopsTo F code t p q)
    (hended : p.state.control.ended = true) :
    q.state.step F code t = p.state.step F code t := by
  revert hended
  refine Reaches.induction (P := fun p => p.state.control.ended = true →
    q.state.step F code t = p.state.step F code t) (fun _ _ => rfl) (fun p hp _ ih hended => ?_) h
  have hnext : (p.stepToNext F code).state = p.state.step F code p.next := rfl
  have hstill : (p.stepToNext F code).state.control.ended = true := by
    rw [hnext, LightState.control_step, Control.ended_step F code hended]
  rw [ih hstill, hnext, LightState.step_step F code p.state (Nat.le_of_lt hp)]
  rintro ⟨hrun, -⟩
  rw [hended] at hrun
  cases hrun

/-- Behind the end of the program, the loop stops. -/
theorem exists_loopsTo_ended {t : ℕ} (ht : t < 2 ^ 64) {p : LightPlayer}
    (hended : p.state.control.ended = true) : ∃ q, LoopsTo F code t p q := by
  induction hk : t - p.next using Nat.strongRecOn generalizing p with
  | ind k ih =>
      by_cases hbehind : Behind t p
      · have hlt : p.next < t := hbehind
        have hnext : (p.stepToNext F code).state = p.state.step F code p.next := rfl
        have hstill : (p.stepToNext F code).state.control.ended = true := by
          rw [hnext, LightState.control_step, Control.ended_step F code hended]
        -- the timestamp moves forward, even where the wakeup time wraps around
        have hforward : p.next < (p.stepToNext F code).next := by
          have hwakeup : (p.state.step F code p.next).control.wakeup =
              (p.next + 60000) % 2 ^ 64 := by
            rw [LightState.control_step, Control.step, if_pos hended]
          simp only [stepToNext, hwakeup]
          split <;> omega
        obtain ⟨q, hq⟩ := ih (t - (p.stepToNext F code).next) (by omega) hstill rfl
        exact ⟨q, (reaches_of hbehind).mpr hq⟩
      · exact ⟨p, (reaches_of_not hbehind).mpr rfl⟩

/-- Where a seek lands behind the end of the program. -/
theorem lands_ended_iff {t : ℕ} (ht : t < 2 ^ 64) {p : LightPlayer}
    (hended : p.state.control.ended = true) (st : LightState) :
    Lands F code t p st ↔ p.state.step F code t = st := by
  constructor
  · rintro ⟨q, hq, rfl⟩
    exact (step_of_loopsTo_ended F code hq hended).symm
  · rintro rfl
    obtain ⟨q, hq⟩ := exists_loopsTo_ended F code ht hended
    exact ⟨q, hq, step_of_loopsTo_ended F code hq hended⟩

/-! ### The loop and the schedule -/

/-- **The loop of a fresh player** follows the schedule: behind the commands that start before the
target, its last step is the step at the target. -/
theorem exists_onSchedule_of_loopsTo {t : ℕ} {q : LightPlayer}
    (h : LoopsTo F code t (start code) q) :
    ∃ n, LightState.CommandsBefore F code t n ∧
      q.state.step F code t = (LightState.onSchedule F code n).step F code t := by
  refine Reaches.induction (P := fun p => p.Synced → ∃ n,
    (∀ i < n, ((LightState.onTime F code)^[i] p.state).control.StartsBefore t) ∧
      ¬ ((LightState.onTime F code)^[n] p.state).control.StartsBefore t ∧
      q.state.step F code t = ((LightState.onTime F code)^[n] p.state).step F code t)
    (fun hstop hsync => ⟨0, by omega, ?_, rfl⟩) (fun p hbehind hq ih hsync => ?_) h
    (synced_start code) |>.imp fun n hn => ⟨⟨hn.1, hn.2.1⟩, hn.2.2⟩
  · rintro ⟨hrun, hlt⟩
    exact hstop (show q.next < t from hsync hrun ▸ hlt)
  · cases hended : p.state.control.ended with
    | true =>
        refine ⟨0, by omega, fun hstarts => ?_,
          step_of_loopsTo_ended F code ((reaches_of hbehind).mpr hq) hended⟩
        rw [Function.iterate_zero, id_eq, Control.StartsBefore, hended] at hstarts
        exact Bool.noConfusion hstarts.1
    | false =>
        -- the loop executes the next command when the program wakes up for it
        have hnext : (p.stepToNext F code).state = LightState.onTime F code p.state := by
          rw [LightState.onTime, ← hsync hended]
          rfl
        obtain ⟨n, hbefore, hnot, hstep⟩ := ih (hsync.stepToNext F code)
        simp only [hnext, ← Function.iterate_succ_apply] at hbefore hnot hstep
        refine ⟨n + 1, fun i hi => ?_, hnot, hstep⟩
        cases i with
        | zero => exact ⟨hended, hsync hended ▸ hbehind⟩
        | succ i => exact hbefore i (Nat.lt_of_succ_lt_succ hi)

/-! ### A step to an earlier time -/

/-- The player has been stepped far enough for a seek to `s` to be over: its program has
ended, or its next command is not before `s`. -/
def Ready (s : ℕ) (p : LightPlayer) : Prop :=
  p.Synced ∧ (p.state.control.ended = true ∨ s ≤ p.next)

/-- Where the loop of a seek stops, the player is ready. -/
theorem ready_of_loopsTo {s : ℕ} {p q : LightPlayer} (hp : p.Synced)
    (h : LoopsTo F code s p q) : q.Ready s :=
  ⟨Reaches.invariant (I := Synced) (fun _ hq => hq.stepToNext F code) h hp,
    Or.inr (Nat.le_of_not_lt h.not_cond)⟩

/-- A player that is ready for `s` is ready for it after a step to `s`. -/
theorem Ready.stepToTarget {s : ℕ} {p : LightPlayer} (h : p.Ready s) :
    (p.stepToTarget F code s).Ready s := by
  refine ⟨synced_stepToTarget F code s p, ?_⟩
  obtain ⟨hsync, hready⟩ := h
  cases hended : (p.stepToTarget F code s).state.control.ended with
  | true => exact Or.inl rfl
  | false =>
      have hbefore := LightState.ended_of_step F code hended
      have hle : s ≤ p.next := hready.resolve_left (by simp [hbefore])
      have hmono := Control.wakeup_step F code hbefore s
      rw [← LightState.control_step, ← hsync hbefore] at hmono
      exact Or.inr (hle.trans hmono)

/-- **A step to an earlier time** does not change where a seek lands. -/
theorem lands_stepToTarget {s t : ℕ} (hst : s < t) (ht : t < 2 ^ 64) {p : LightPlayer}
    (h : p.Ready s) (st : LightState) :
    Lands F code t (p.stepToTarget F code s) st ↔ Lands F code t p st := by
  have hstate : (p.stepToTarget F code s).state = p.state.step F code s := rfl
  by_cases hdue : p.state.control.Due s
  · -- the step executes the command that the loop would have executed next
    obtain ⟨hrun, hwakeup⟩ := hdue
    have hnext : p.next = s := by
      have hle : s ≤ p.next := h.2.resolve_left (by simp [hrun])
      have hsync := h.1 hrun
      omega
    have hsame : p.stepToNext F code = p.stepToTarget F code s := by
      have hmono := Control.wakeup_step F code hrun p.next
      rw [← LightState.control_step, ← h.1 hrun, hnext] at hmono
      simp only [stepToNext, LightPlayer.stepToTarget, hnext, if_neg (Nat.not_lt.mpr hmono)]
    have hbehind : Behind t p := by rw [Behind, hnext]; exact hst
    simp only [Lands, LoopsTo]
    rw [← hsame]
    exact exists_congr fun q => and_congr_left fun _ => (reaches_of hbehind).symm
  · have habsorb : ∀ v, s ≤ v →
        (p.state.step F code s).step F code v = p.state.step F code v := fun v hv =>
      LightState.step_step F code p.state hv hdue
    cases hended : p.state.control.ended with
    | true =>
        have hstill : (p.stepToTarget F code s).state.control.ended = true := by
          rw [hstate, LightState.control_step, Control.ended_step F code hended]
        rw [lands_ended_iff F code ht hstill, lands_ended_iff F code ht hended, hstate,
          habsorb t (Nat.le_of_lt hst)]
    | false =>
        -- nothing was due, so the next timestamp has not moved
        have hwait : ¬ p.state.control.wakeup ≤ s := fun hle => hdue ⟨hended, hle⟩
        have hcontrol : (p.state.step F code s).control = p.state.control := by
          rw [LightState.control_step, Control.step, hended, if_neg hwait]
          rfl
        have hnext : (p.stepToTarget F code s).next = p.next := by
          rw [h.1 hended, ← hcontrol]
          rfl
        by_cases hbehind : Behind t p
        · have hbehind' : Behind t (p.stepToTarget F code s) := by rwa [Behind, hnext]
          have hle : s ≤ p.next := h.2.resolve_left (by simp [hended])
          have hsame : (p.stepToTarget F code s).stepToNext F code = p.stepToNext F code := by
            simp only [stepToNext, hnext, hstate, habsorb p.next hle]
          simp only [Lands, LoopsTo]
          refine exists_congr fun q => and_congr_left fun _ => ?_
          rw [reaches_of hbehind', hsame, reaches_of hbehind]
        · have hbehind' : ¬ Behind t (p.stepToTarget F code s) := by rwa [Behind, hnext]
          simp only [Lands, LoopsTo, reaches_of_not hbehind, reaches_of_not hbehind',
            exists_eq_left, hstate, habsorb t (Nat.le_of_lt hst)]

/-! ### Runs of seeks -/

/-- After a seek to `s` that repeats `r` earlier ones, the player is where a fresh one
would be that has made `r` more steps to `s`. -/
def Landed (s r : ℕ) (p : LightPlayer) : Prop :=
  ∃ q, LoopsTo F code s (start code) q ∧ p = (stepToTarget F code s)^[r + 1] q

/-- Repeated steps keep a player ready. -/
theorem Ready.iterate {s : ℕ} {p : LightPlayer} (h : p.Ready s) (n : ℕ) :
    ((LightPlayer.stepToTarget F code s)^[n] p).Ready s := by
  induction n with
  | zero => exact h
  | succ n ih =>
      rw [Function.iterate_succ_apply']
      exact ih.stepToTarget F code

/-- Repeated steps to an earlier time do not change where a seek lands. -/
theorem lands_iterate {s t : ℕ} (hst : s < t) (ht : t < 2 ^ 64) {p : LightPlayer}
    (h : p.Ready s) (n : ℕ) (st : LightState) :
    Lands F code t ((stepToTarget F code s)^[n] p) st ↔ Lands F code t p st := by
  induction n with
  | zero => exact Iff.rfl
  | succ n ih =>
      rw [Function.iterate_succ_apply', lands_stepToTarget F code hst ht (h.iterate F code n), ih]

/-- The state determines the player behind a step to a target. -/
theorem stepToTarget_congr {t : ℕ} {p q : LightPlayer}
    (h : p.state.step F code t = q.state.step F code t) :
    p.stepToTarget F code t = q.stepToTarget F code t := by
  simp only [stepToTarget, h]

/-- The timestamp after a repeated step. -/
theorem current_iterate (s n : ℕ) (p : LightPlayer) :
    ((stepToTarget F code s)^[n + 1] p).current = s := by
  rw [Function.iterate_succ_apply']
  rfl

/-- Repeated steps to a time at which no command is due do what the first of them does. -/
theorem state_iterate_of_not_due {s : ℕ} {p : LightPlayer} (h : ¬ p.state.control.Due s) (n : ℕ) :
    ((stepToTarget F code s)^[n + 1] p).state = p.state.step F code s := by
  induction n with
  | zero => rfl
  | succ n ih =>
      rw [Function.iterate_succ_apply']
      show ((stepToTarget F code s)^[n + 1] p).state.step F code s = p.state.step F code s
      rw [ih, LightState.step_step F code p.state le_rfl h]

/-- Repeated steps to a time are steps of the machine. -/
theorem state_iterate (s n : ℕ) (p : LightPlayer) :
    ((stepToTarget F code s)^[n] p).state = (LightState.step F code s)^[n] p.state := by
  have hstep : Function.Semiconj state (stepToTarget F code s) (LightState.step F code s) :=
    fun _ => rfl
  exact hstep.iterate_right n p

/-- A seek that returns, as its loop and its last step. -/
theorem seek_eq_some_iff {fuel t : ℕ} {p r : LightPlayer} :
    p.seek F code fuel t = some r ↔
      ∃ q, run (Behind t) (stepToNext F code) fuel (p.rewindIfNeeded code t) = some q ∧
        q.stepToTarget F code t = r :=
  Option.map_eq_some_iff

/-- The first seek of a fresh player. -/
theorem landed_start {fuel t : ℕ} {p : LightPlayer}
    (h : (start code).seek F code fuel t = some p) : Landed F code t 0 p := by
  obtain ⟨q, hq, rfl⟩ := (seek_eq_some_iff F code).mp h
  rw [rewindIfNeeded, if_neg (show ¬ t < (start code).current from Nat.not_lt_zero t)] at hq
  exact ⟨q, ⟨fuel, hq⟩, rfl⟩

/-- **One more seek.** The count of repetitions goes up when the target is the same, and
starts again when it is not. -/
theorem Landed.seek {s r fuel t : ℕ} (ht : t < 2 ^ 64) {p p' : LightPlayer}
    (h : Landed F code s r p) (hseek : p.seek F code fuel t = some p') :
    Landed F code t (if t = s then r + 1 else 0) p' := by
  obtain ⟨q, hq, rfl⟩ := h
  have hready := ready_of_loopsTo F code (synced_start code) hq
  obtain ⟨u, hu, rfl⟩ := (seek_eq_some_iff F code).mp hseek
  have hcurrent := current_iterate F code s r q
  rcases Nat.lt_trichotomy t s with hlt | rfl | hgt
  · -- an earlier target: the player starts over
    rw [rewindIfNeeded, if_pos (by rw [hcurrent]; exact hlt)] at hu
    rw [if_neg (Nat.ne_of_lt hlt)]
    exact ⟨u, ⟨fuel, hu⟩, rfl⟩
  · -- the same target: the loop does nothing, and one more step is made
    rw [rewindIfNeeded, if_neg (by rw [hcurrent]; exact Nat.lt_irrefl t)] at hu
    rw [if_pos rfl]
    refine ⟨q, hq, ?_⟩
    rw [Function.iterate_succ_apply' _ (r + 1)]
    obtain ⟨-, hstop⟩ := hready.iterate F code (r + 1)
    by_cases hended : ((stepToTarget F code t)^[r + 1] q).state.control.ended = true
    · exact stepToTarget_congr F code (step_of_loopsTo_ended F code ⟨fuel, hu⟩ hended)
    · have hnot : ¬ Behind t ((stepToTarget F code t)^[r + 1] q) :=
        Nat.not_lt.mpr (hstop.resolve_left hended)
      rw [(reaches_of_not hnot).mp ⟨fuel, hu⟩]
  · -- a later target: the steps made so far are not seen any more
    rw [rewindIfNeeded, if_neg (by rw [hcurrent]; exact Nat.not_lt.mpr (Nat.le_of_lt hgt))] at hu
    rw [if_neg (Nat.ne_of_gt hgt)]
    obtain ⟨v, hv, hsame⟩ :=
      (lands_iterate F code hgt ht hready (r + 1) _).mp ⟨u, ⟨fuel, hu⟩, rfl⟩
    have hfresh : LoopsTo F code t (start code) v :=
      (hq.iff_of_imp fun x hx => Nat.lt_trans hx hgt).mpr hv
    exact ⟨v, hfresh, stepToTarget_congr F code hsame.symm⟩

/-- **A further seek returns** if a fresh one to the same time does. -/
theorem Landed.exists_seek {s r t : ℕ} (ht : t < 2 ^ 64) {p : LightPlayer}
    (h : Landed F code s r p) (hreach : ∃ v, LoopsTo F code t (start code) v) :
    ∃ fuel p', p.seek F code fuel t = some p' := by
  obtain ⟨q, hq, rfl⟩ := h
  have hready := ready_of_loopsTo F code (synced_start code) hq
  have hcurrent := current_iterate F code s r q
  have hloop : ∃ v, LoopsTo F code t
      (((stepToTarget F code s)^[r + 1] q).rewindIfNeeded code t) v := by
    rcases Nat.lt_trichotomy t s with hlt | rfl | hgt
    · rwa [rewindIfNeeded, if_pos (by rw [hcurrent]; exact hlt)]
    · rw [rewindIfNeeded, if_neg (by rw [hcurrent]; exact Nat.lt_irrefl t)]
      obtain ⟨-, hstop⟩ := hready.iterate F code (r + 1)
      by_cases hended : ((stepToTarget F code t)^[r + 1] q).state.control.ended = true
      · exact exists_loopsTo_ended F code ht hended
      · have hnot : ¬ Behind t ((stepToTarget F code t)^[r + 1] q) :=
          Nat.not_lt.mpr (hstop.resolve_left hended)
        exact ⟨_, (reaches_of_not hnot).mpr rfl⟩
    · rw [rewindIfNeeded, if_neg (by rw [hcurrent]; exact Nat.not_lt.mpr (Nat.le_of_lt hgt))]
      obtain ⟨v, hv⟩ := hreach
      have hfresh : LoopsTo F code t q v := (hq.iff_of_imp fun x hx => Nat.lt_trans hx hgt).mp hv
      obtain ⟨u, hu, -⟩ := (lands_iterate F code hgt ht hready (r + 1) _).mpr ⟨v, hfresh, rfl⟩
      exact ⟨u, hu⟩
  obtain ⟨v, fuel, hv⟩ := hloop
  exact ⟨fuel, _, (seek_eq_some_iff F code).mpr ⟨v, hv, rfl⟩⟩

/-- **A seek returns** exactly if a fresh one to the same time does. -/
theorem seek_returns_iff {t : ℕ} (ht : t < 2 ^ 64) {p : LightPlayer}
    (h : p = start code ∨ ∃ s r, Landed F code s r p) :
    (∃ fuel q, p.seek F code fuel t = some q) ↔ ∃ v, LoopsTo F code t (start code) v := by
  rcases h with rfl | ⟨s, r, hlanded⟩
  · constructor
    · rintro ⟨fuel, q, hq⟩
      obtain ⟨v, hv, -⟩ := landed_start F code hq
      exact ⟨v, hv⟩
    · rintro ⟨v, fuel, hv⟩
      exact ⟨fuel, _, (seek_eq_some_iff F code).mpr ⟨v, hv, rfl⟩⟩
  · constructor
    · rintro ⟨fuel, q, hq⟩
      obtain ⟨v, hv, -⟩ := hlanded.seek F code ht hq
      exact ⟨v, hv⟩
    · exact hlanded.exists_seek F code ht

end LightPlayer

/-! ### The player -/

/-- How many of the last calls asked for time `t`. -/
def repetitions (calls : List LightPlayerCall) (t : UInt64) : ℕ :=
  (calls.reverse.takeWhile fun call => call.timestamp = t).length

/-- What a player shows: its color and its pyro channels. -/
def BytecodePlayer.shown (p : BytecodePlayer) : RgbColor × UInt8 :=
  (p.currentColor, p.currentPyroChannels)

theorem repetitions_concat (calls : List LightPlayerCall) (call : LightPlayerCall)
    (t : UInt64) :
    repetitions (calls ++ [call]) t =
      if call.timestamp = t then repetitions calls t + 1 else 0 := by
  rw [repetitions, List.reverse_append, List.reverse_singleton, List.singleton_append,
    List.takeWhile_cons]
  by_cases h : call.timestamp = t <;> simp [h, repetitions]

namespace BytecodePlayer

variable (F : Rounding) (signals : Signals) {code : BytecodeStore}

/-- Calls, and then one more. -/
theorem lightPlayerAfter_concat (fuel : ℕ) (p : BytecodePlayer) (calls : List LightPlayerCall)
    (call : LightPlayerCall) :
    lightPlayerAfter F signals fuel p (calls ++ [call]) =
      (lightPlayerAfter F signals fuel p calls).bind fun q =>
        q.seek F signals fuel call.timestamp.toNat := by
  induction calls generalizing p with
  | nil =>
      rw [List.nil_append, lightPlayerAfter, lightPlayerAfter, Option.bind_some,
        ← LightPlayerCall.map_snd_run, Option.map_eq_bind]
      rfl
  | cons c calls ih =>
      rw [List.cons_append, lightPlayerAfter, lightPlayerAfter, Option.bind_assoc]
      exact congrArg _ (funext fun r => ih r.2)

/-- A seek of the player is a seek of the player over the machine. -/
theorem Playing.seek {p q : BytecodePlayer} (h : p.Playing code) {fuel target : ℕ}
    (hq : p.seek F signals fuel target = some q) :
    (p.light F).seek F code fuel target = some (q.light F) ∧ q.Playing code ∧
      q.executor.resetClockFlag = false := by
  obtain ⟨hlight, hplaying⟩ := light_seek F signals h fuel target
  rw [hq] at hlight
  exact ⟨hlight.symm, hplaying q hq⟩

/-- After a sequence of calls that ends with one for time `t`, the player has landed. -/
theorem landed_after {memory : UninitMemory} {program : List UInt8}
    (h : Harmless memory program) {fuel : ℕ} (calls : List LightPlayerCall)
    (call : LightPlayerCall) {p : BytecodePlayer}
    (hp : lightPlayerAfter F signals fuel (lightPlayerInit F signals memory program)
      (calls ++ [call]) = some p) :
    p.Playing (.ofArray program) ∧ p.executor.resetClockFlag = false ∧
      LightPlayer.Landed F (.ofArray program) call.timestamp.toNat
        (repetitions calls call.timestamp) (p.light F) := by
  obtain ⟨hinit, hstart⟩ := playing_init F signals h
  induction calls using List.reverseRecOn generalizing call p with
  | nil =>
      rw [lightPlayerAfter_concat, lightPlayerAfter, Option.bind_some] at hp
      obtain ⟨hseek, hplaying, hflag⟩ := hinit.seek F signals hp
      rw [hstart] at hseek
      exact ⟨hplaying, hflag, LightPlayer.landed_start F _ hseek⟩
  | append_singleton calls last ih =>
      rw [lightPlayerAfter_concat] at hp
      obtain ⟨q, hq, hp⟩ := Option.bind_eq_some_iff.mp hp
      obtain ⟨hqplaying, -, hlanded⟩ := ih last hq
      obtain ⟨hseek, hplaying, hflag⟩ := hqplaying.seek F signals hp
      refine ⟨hplaying, hflag, ?_⟩
      have hnext := hlanded.seek F _ call.timestamp.toNat_lt hseek
      rw [repetitions_concat]
      simp only [UInt64.toNat_inj, eq_comm] at hnext ⊢
      split
      case isTrue heq =>
        rw [if_pos heq] at hnext
        exact heq ▸ hnext
      case isFalse hne => rwa [if_neg hne] at hnext

/-- More fuel returns the same player. -/
theorem lightPlayerAfter_mono {fuel fuel' : ℕ} (hle : fuel ≤ fuel') {p q : BytecodePlayer}
    {calls : List LightPlayerCall} (h : lightPlayerAfter F signals fuel p calls = some q) :
    lightPlayerAfter F signals fuel' p calls = some q := by
  induction calls using List.reverseRecOn generalizing q with
  | nil => exact h
  | append_singleton calls call ih =>
      rw [lightPlayerAfter_concat] at h ⊢
      obtain ⟨r, hr, hseek⟩ := Option.bind_eq_some_iff.mp h
      obtain ⟨u, hu, rfl⟩ := Option.map_eq_some_iff.mp hseek
      rw [ih hr, Option.bind_some, BytecodePlayer.seek, run_mono hle hu, Option.map_some]

/-- **A seek returns** exactly if a fresh one to the same time does, whatever was asked before. -/
theorem seek_returns_iff {memory : UninitMemory} {program : List UInt8}
    (h : Harmless memory program) {fuel : ℕ} {calls : List LightPlayerCall} {p : BytecodePlayer}
    (hp : lightPlayerAfter F signals fuel (lightPlayerInit F signals memory program) calls =
      some p) {t : ℕ} (ht : t < 2 ^ 64) :
    (∃ fuel' q, p.seek F signals fuel' t = some q) ↔
      ∃ v, LightPlayer.LoopsTo F (.ofArray program) t (.start (.ofArray program)) v := by
  obtain ⟨hplaying, hplace⟩ : p.Playing (.ofArray program) ∧
      (p.light F = LightPlayer.start (.ofArray program) ∨
        ∃ s r, LightPlayer.Landed F (.ofArray program) s r (p.light F)) := by
    rcases List.eq_nil_or_concat calls with rfl | ⟨before, last, rfl⟩
    · obtain rfl : lightPlayerInit F signals memory program = p := Option.some.inj hp
      exact (playing_init F signals h).imp_right .inl
    · rw [List.concat_eq_append] at hp
      obtain ⟨hplaying, -, hlanded⟩ := landed_after F signals h before last hp
      exact ⟨hplaying, .inr ⟨_, _, hlanded⟩⟩
  rw [← LightPlayer.seek_returns_iff F _ ht hplace]
  refine exists_congr fun fuel' => ?_
  rw [← (light_seek F signals hplaying fuel' t).1, ← Option.isSome_iff_exists,
    ← Option.isSome_iff_exists, Option.isSome_map]

/-- **A sequence of calls returns** if fresh seeks to the same times do. -/
theorem exists_lightPlayerAfter_of_reaches {memory : UninitMemory} {program : List UInt8}
    (h : Harmless memory program) {calls : List LightPlayerCall}
    (hreach : ∀ call ∈ calls, ∃ v, LightPlayer.LoopsTo F (.ofArray program)
      call.timestamp.toNat (.start (.ofArray program)) v) :
    ∃ fuel p, lightPlayerAfter F signals fuel (lightPlayerInit F signals memory program) calls =
      some p := by
  induction calls using List.reverseRecOn with
  | nil => exact ⟨0, _, rfl⟩
  | append_singleton calls call ih =>
      obtain ⟨fuel, p, hp⟩ := ih fun c hc => hreach c (List.mem_append_left _ hc)
      have hlast := hreach call (List.mem_append_right _ (List.mem_singleton_self call))
      obtain ⟨fuel', q, hq⟩ :=
        (seek_returns_iff F signals h hp call.timestamp.toNat_lt).mpr hlast
      obtain ⟨u, hu, rfl⟩ := Option.map_eq_some_iff.mp hq
      refine ⟨max fuel fuel', u.stepToTarget F signals call.timestamp.toNat, ?_⟩
      rw [lightPlayerAfter_concat, lightPlayerAfter_mono F signals (le_max_left _ _) hp,
        Option.bind_some, BytecodePlayer.seek, run_mono (le_max_right _ _) hu, Option.map_some]

/-- **A program whose fresh seeks return** lets every sequence of calls return. -/
theorem exists_lightPlayerAfter {memory : UninitMemory} {program : List UInt8}
    (h : Harmless memory program)
    (hreach : ∀ t < 2 ^ 64, ∃ v, LightPlayer.LoopsTo F (.ofArray program) t
      (.start (.ofArray program)) v)
    (calls : List LightPlayerCall) :
    ∃ fuel p, lightPlayerAfter F signals fuel (lightPlayerInit F signals memory program) calls =
      some p :=
  exists_lightPlayerAfter_of_reaches F signals h fun call _ =>
    hreach _ call.timestamp.toNat_lt

/-- What a player shows, as a picture of the machine. -/
theorem shown_eq_picture {p : BytecodePlayer} (hflag : p.executor.resetClockFlag = false) :
    p.shown = (p.light F).state.look.picture.shown := by
  obtain ⟨hcolor, hpyro⟩ := light_shown F hflag
  rw [shown, hcolor, hpyro]
  rfl

end BytecodePlayer

/-- Red and then green, both for no time at all. -/
def redThenGreen : List UInt8 := [0x04, 255, 0, 0, 0, 0x04, 0, 255, 0, 0]

end Skybrush
