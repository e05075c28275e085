import Skybrush.LoopTimeline
import Skybrush.StraightLine

/-!
# Playing Programs with Loops

In exact arithmetic the player shows the timeline of every structured program: with nested
loops, with clock resets, and with a loop without end. The player that is about to execute a
command stands for a flow and a beat (`LightPlayer.AtBeat`). A loop command takes the player to
the next command of the flow at the same beat, an instruction to the next command at the beat
at which it is over; so the player that goes through a run of the flow goes through the
timeline of the instructions in it.

## Main results

* `LightPlayer.AtBeat.reaches`: the loop of a seek stops, and shows the timeline, as soon as
  the time that is sought lies in it.
* `loops_shown`: the player shows the timeline of a program with loops.
* `endless_shown`: so it does with a loop without end, for as many iterations as it takes.
* `endless_periodic`: from the second iteration on, what is shown repeats itself.
-/

namespace Skybrush

open WhileLoop

/-! ### One command -/

/-- The instruction has a place on a timeline, or shows nothing. -/
theorem Instruction.IsPlayable.timed_or {i : Instruction} (hi : i.IsPlayable) :
    (i.IsTimed ∧ ∀ origin now, i.stopOn origin now = i.stop now) ∨
      (∀ (l : Look) (now wakeup : ℕ), l.perform .exact now wakeup i.command = l) ∧
        i.fadeDuration = none ∧ i.target = none ∧
        ∀ channels, i.pyroChannels channels = channels := by
  obtain ⟨hchannels, hfade⟩ := hi
  cases i with
  | resetClock | waitUntil _ => exact .inr ⟨fun _ _ _ => rfl, rfl, rfl, fun _ => rfl⟩
  | _ => exact .inl ⟨⟨CommandCode.noConfusion, hchannels, hfade⟩, fun _ _ => rfl⟩

/-- The clock of a program, last reset at `origin`, in exact arithmetic. -/
theorem internalToAbsolute_origin {origin ms : ℕ} (h : origin + ms < 2 ^ 63) :
    internalToAbsolute .exact 1 origin (toSigned ms) = origin + ms := by
  have hcast : ((origin : ℚ) + ((ms : ℤ) : ℚ)) = ((origin + ms : ℕ) : ℚ) := by
    push_cast
    rfl
  have hfits : origin + ms < 2 ^ 64 := by omega
  rw [internalToAbsolute, toSigned_of_lt (by omega)]
  simp only [Rounding.exact_apply, mul_one, hcast, Rounding.roundAway_natCast,
    floatToUnsigned_natCast hfits]

theorem absoluteToInternal_origin {origin ms : ℕ} (hle : origin ≤ ms) (h : ms < 2 ^ 63) :
    absoluteToInternal .exact 1 origin ms = (ms - origin : ℕ) := by
  have hdifference : toUnsigned (toSigned ms - origin) = ms - origin := by
    rw [toSigned_of_lt h, ← Nat.cast_sub hle]
    exact toUnsigned_natCast (by omega)
  rw [absoluteToInternal]
  simp only [Rounding.exact_apply, div_one, hdifference, Rounding.roundAway_natCast,
    floatToSigned_natCast (show ms - origin < 2 ^ 63 by omega)]

/-- The control state at a beat. -/
def Flow.controlAt (flow : Flow) (b : Beat) : Control :=
  ⟨flow.location, flow.loops, flow.ended, b.origin, b.time - b.origin, b.time⟩

/-- **The clocks** at the start of an instruction are moved to its end. -/
theorem Flow.perform_playable (flow : Flow) {i : Instruction} (hi : i.IsPlayable) {b : Beat}
    (horigin : b.origin ≤ b.time) (hfits : (b.after i).time < 2 ^ 63) :
    (flow.controlAt b).perform .exact b.time i.command = flow.controlAt (b.after i) := by
  have hdelay : ∀ v : Varint, b.time + 20 * v.value < 2 ^ 63 →
      (flow.controlAt b).addDuration .exact v.duration =
        ⟨flow.location, flow.loops, flow.ended, b.origin, b.time + 20 * v.value - b.origin,
          b.time + 20 * v.value⟩ := by
    intro v hv
    rw [Varint.duration_eq (by omega)]
    have hcumulative : (b.time - b.origin + 20 * v.value) % 2 ^ 64 =
        b.time + 20 * v.value - b.origin := by omega
    have hwakeup : b.origin + (b.time + 20 * v.value - b.origin) = b.time + 20 * v.value := by omega
    have hlater : (if b.time < b.time + 20 * v.value then b.time + 20 * v.value else b.time) =
        b.time + 20 * v.value := by split <;> omega
    simp only [Control.addDuration, Control.delayUntil, Flow.controlAt, hcumulative]
    rw [internalToAbsolute_origin (by omega), hwakeup, hlater]
  cases i with
  | nop | setPyro _ | setPyroAll _ => rfl
  | resetClock =>
      have hzero : absoluteToInternal .exact 1 b.time b.time = (0 : ℕ) := by
        exact (absoluteToInternal_origin le_rfl hfits).trans (by rw [Nat.sub_self])
      simp only [Instruction.command, Control.perform, Control.resetClock, hzero, Flow.controlAt,
        Beat.after, Instruction.stopOn, Instruction.stop, Instruction.originOn, Nat.sub_self]
      rfl
  | setColorFromChannels _ _ | fadeToColorFromChannels _ _ =>
      exact absurd hi.1 (by simp [Instruction.code, CommandCode.usesChannels])
  | waitUntil v =>
      simp only [Beat.after, Instruction.stopOn] at hfits
      have htwenty : (20 : UInt64).toNat = 20 := rfl
      have hdeadline : (v.number * 20).toNat = 20 * v.value := by
        rw [UInt64.toNat_mul, htwenty, v.number_eq_value (by omega)]
        omega
      have hwakeup : (if b.time < b.origin + 20 * v.value then b.origin + 20 * v.value
          else b.time) = max b.time (b.origin + 20 * v.value) := (max_def_lt ..).symm
      simp only [Instruction.command, Control.perform, Control.waitUntil, Control.delayUntil,
        hdeadline, Flow.controlAt]
      rw [internalToAbsolute_origin (by omega), hwakeup,
        absoluteToInternal_origin (by omega) hfits, toUnsigned_natCast (by omega)]
      rfl
  | sleep v | setBlack v | setWhite v | fadeToBlack v | fadeToWhite v => exact hdelay v hfits
  | setGray _ v | fadeToGray _ v | setColor _ v | fadeToColor _ v => exact hdelay v hfits

namespace Look

/-- **While an instruction is executed**, the timeline is shown. -/
theorem advance_playable {i : Instruction} (hi : i.IsPlayable) {b : Beat}
    (hfits : (b.after i).time < 2 ^ 63) {t : ℕ} (hstart : b.time ≤ t)
    (hstop : t < (b.after i).time) :
    let look := ((still b.toMoment).perform .exact b.time (b.after i).time i.command).advance
      .exact t
    look.color = (b.during i t).color ∧ look.pyroChannels = (b.during i t).pyroChannels := by
  rcases hi.timed_or with ⟨htimed, hsame⟩ | ⟨hperform, hfade, htarget, hpyro⟩
  · rw [Beat.time_after, hsame] at hfits hstop ⊢
    exact advance_perform htimed hfits hstart hstop
  · rw [hperform, advance_still, Moment.during, hfade, htarget, hpyro]
    exact ⟨rfl, rfl⟩

/-- **When an instruction is over**, its beat is shown and no fade is running. -/
theorem advance_playable_stop {i : Instruction} (hi : i.IsPlayable) {b : Beat}
    (hfits : (b.after i).time < 2 ^ 63) :
    ((still b.toMoment).perform .exact b.time (b.after i).time i.command).advance .exact
      (b.after i).time = still (b.after i).toMoment := by
  rcases hi.timed_or with ⟨htimed, hsame⟩ | ⟨hperform, hfade, htarget, hpyro⟩
  · rw [Beat.time_after, hsame] at hfits
    rw [Beat.toMoment_after (hsame _ _)]
    exact advance_perform_stop htimed hfits
  · rw [hperform, advance_still]
    simp only [still, Beat.after, htarget, hpyro, Option.getD_none]

end Look

/-! ### The start of a command -/

namespace LightPlayer

variable {code : BytecodeStore}

/-- The player is about to execute the next command of a flow, at the beat `b`. -/
structure AtBeat (flow : Flow) (b : Beat) (p : LightPlayer) : Prop where
  control : p.state.control = flow.controlAt b
  next : p.next = b.time
  look : p.state.look.advance .exact b.time = Look.still b.toMoment
  origin_le : b.origin ≤ b.time

/-- A fresh player is at the start of its code. -/
theorem atBeat_start (code : BytecodeStore) : (start code).AtBeat ⟨0, [], code.isEmpty⟩ .start where
  control := rfl
  next := rfl
  look := rfl
  origin_le := le_rfl

variable {flow : Flow} {b : Beat} {p : LightPlayer}

/-- A step that executes the next command of the flow. -/
theorem AtBeat.step (h : p.AtBeat flow b) (code : BytecodeStore) (hrunning : flow.ended = false) :
    p.state.step .exact code b.time =
      LightState.perform .exact b.time
        ⟨Flow.controlAt { flow with location := (flow.fetch code).2.nextIndex } b,
          Look.still b.toMoment⟩ (flow.fetch code).1 := by
  have hended : p.state.control.ended = false := by
    rw [h.control]
    exact hrunning
  have hdue : p.state.control.wakeup ≤ b.time := by
    rw [h.control]
    exact le_rfl
  rw [LightState.step, if_neg (by simp [hended]), if_pos hdue, h.look, Control.fetched,
    Control.fetch, h.control]
  rfl

/-- The player that has executed the next command at the beat `b` is at the beat `b'`. -/
theorem AtBeat.of_step {flow' : Flow} {b' : Beat} (h : p.AtBeat flow b) (hle : b.time ≤ b'.time)
    (hcontrol : (p.state.step .exact code b.time).control = flow'.controlAt b')
    (hlook : (p.state.step .exact code b.time).look.advance .exact b'.time =
      Look.still b'.toMoment) (horigin : b'.origin ≤ b'.time) :
    (p.stepToNext .exact code).AtBeat flow' b' := by
  have hnext : p.stepToNext .exact code =
      ⟨p.state.step .exact code b.time, b.time, b'.time⟩ := by
    have hwakeup : (p.state.step .exact code b.time).control.wakeup = b'.time := by
      rw [hcontrol]
      rfl
    simp only [LightPlayer.stepToNext, h.next, hwakeup, if_neg (not_lt.2 hle)]
  rw [hnext]
  exact ⟨hcontrol, rfl, hlook, horigin⟩

/-- **A loop command** takes the player to the next command, at the same beat. -/
theorem AtBeat.stepToNext_loop (h : p.AtBeat flow b) (hrunning : flow.ended = false)
    (hloop : (flow.fetch code).1.isLoop = true) :
    (p.stepToNext .exact code).AtBeat (flow.step code) b := by
  have hstep := h.step code hrunning
  rw [Flow.step]
  cases hc : (flow.fetch code).1 with
  | loopBegin n | loopEnd =>
      rw [hc] at hstep
      exact h.of_step le_rfl (by rw [hstep]; rfl) (by rw [hstep]; rfl) h.origin_le
  | _ =>
      rw [hc] at hloop
      cases hloop

/-- **An instruction** takes the player to the next command, at the beat at which it is
over. -/
theorem AtBeat.stepToNext_instruction {i : Instruction} (h : p.AtBeat flow b)
    (hrunning : flow.ended = false) (hfetch : (flow.fetch code).1 = i.command)
    (hi : i.IsPlayable) (hfits : (b.after i).time < 2 ^ 63) :
    (p.stepToNext .exact code).AtBeat (flow.step code) (b.after i) ∧
      (p.stepToNext .exact code).state.look =
        (Look.still b.toMoment).perform .exact b.time (b.after i).time i.command := by
  have hstep := h.step code hrunning
  have hcontrol := Flow.perform_playable { flow with location := (flow.fetch code).2.nextIndex } hi
    h.origin_le hfits
  rw [hfetch, LightState.perform, hcontrol] at hstep
  have hlook : (p.state.step .exact code b.time).look =
      (Look.still b.toMoment).perform .exact b.time (b.after i).time i.command := by
    rw [hstep]
    rfl
  have hflow : flow.step code = { flow with location := (flow.fetch code).2.nextIndex } := by
    rw [Flow.step, hfetch, i.perform_command]
  refine ⟨h.of_step (Score.time_le_after b i) ?_ ?_ (Score.origin_le_after h.origin_le i), ?_⟩
  · rw [hstep, hflow]
  · rw [hlook, Look.advance_playable_stop hi hfits]
  · simp only [LightPlayer.stepToNext, h.next, hlook]

/-- **While an instruction is executed** no other command is due, and the timeline is shown. -/
theorem AtBeat.shown_during {i : Instruction} (h : p.AtBeat flow b)
    (hrunning : flow.ended = false) (hfetch : (flow.fetch code).1 = i.command)
    (hi : i.IsPlayable) (hfits : (b.after i).time < 2 ^ 63) {t : ℕ} (hstart : b.time ≤ t)
    (hduring : t < (b.after i).time) :
    ¬ (p.stepToNext .exact code).state.control.Due t ∧
      shown ((p.stepToNext .exact code).state.step .exact code t) = (b.during i t).shown := by
  obtain ⟨hnext, hlook⟩ := h.stepToNext_instruction hrunning hfetch hi hfits
  have hdue : ¬ (p.stepToNext .exact code).state.control.Due t := by
    rw [hnext.control]
    rintro ⟨-, hle⟩
    exact absurd hduring (not_lt.2 hle)
  obtain ⟨hcolor, hpyro⟩ := Look.advance_playable hi hfits hstart hduring
  refine ⟨hdue, ?_⟩
  have hkeeps : (p.stepToNext .exact code).state.step .exact code t =
      { (p.stepToNext .exact code).state with
        look := (p.stepToNext .exact code).state.look.advance .exact t } := by
    have hended : (p.stepToNext .exact code).state.control.ended = false := by
      rw [hnext.control, Flow.controlAt, Flow.step, hfetch, i.perform_command]
      exact hrunning
    rw [LightState.step, if_neg (by simp [hended]), if_neg fun hle => hdue ⟨hended, hle⟩]
  rw [hkeeps, shown, hlook, Moment.shown, hcolor, hpyro]

/-- A program that has ended shows the same all the time. -/
theorem exists_loopsTo_shown (code : BytecodeStore) {t : ℕ} (ht : t < 2 ^ 64) {p : LightPlayer}
    (hended : p.state.control.ended = true) :
    ∃ q, LoopsTo .exact code t p q ∧ ¬ q.state.control.Due t ∧
      shown (q.state.step .exact code t) = shown p.state := by
  obtain ⟨q, hq⟩ := exists_loopsTo_ended .exact code ht hended
  have hqended : q.state.control.ended = true := by
    refine Reaches.invariant (I := fun q => q.state.control.ended = true) (fun r hr => ?_) hq hended
    exact (congrArg Control.ended (LightState.control_step ..)).trans
      (Control.ended_step _ code hr _)
  refine ⟨q, hq, fun hdue => ?_, ?_⟩
  · exact absurd (hqended.symm.trans hdue.1) Bool.noConfusion
  · rw [step_of_loopsTo_ended .exact code hq hended, LightState.step, if_pos hended, shown, shown]

/-- **The end marker** ends the program, and its beat is held. -/
theorem AtBeat.shown_end (h : p.AtBeat flow b) (hrunning : flow.ended = false)
    (hfetch : (flow.fetch code).1 = .end_) {t : ℕ} (ht : t < 2 ^ 64) (hlt : b.time < t) :
    ∃ q, LoopsTo .exact code t p q ∧ ¬ q.state.control.Due t ∧
      shown (q.state.step .exact code t) = b.shown := by
  have hbehind : Behind t p := by rwa [Behind, h.next]
  have hstep := h.step code hrunning
  rw [hfetch] at hstep
  have hstate : (p.stepToNext .exact code).state = p.state.step .exact code b.time := by
    simp only [LightPlayer.stepToNext, h.next]
  have hended : (p.stepToNext .exact code).state.control.ended = true := by
    rw [hstate, hstep]
    rfl
  obtain ⟨q, hq, hdue, hshown⟩ := exists_loopsTo_shown code ht hended
  refine ⟨q, (reaches_of hbehind).mpr hq, hdue, hshown.trans ?_⟩
  rw [hstate, hstep]
  rfl

/-- The loop of a seek goes on where the next command takes the player, if it gets that far. -/
theorem AtBeat.of_next (h : p.AtBeat flow b) {t : ℕ} {q : LightPlayer} {P : LightPlayer → Prop}
    (hq : LoopsTo .exact code t (p.stepToNext .exact code) q) (hP : b.time < t → P q) :
    ∃ q, LoopsTo .exact code t p q ∧ (b.time < t → P q) := by
  by_cases hlt : b.time < t
  · have hbehind : Behind t p := by rwa [Behind, h.next]
    exact ⟨q, (reaches_of hbehind).mpr hq, hP⟩
  · have hnot : ¬ Behind t p := by rwa [Behind, h.next]
    exact ⟨p, (reaches_of_not hnot).mpr rfl, fun hlt' => absurd hlt' hlt⟩

end LightPlayer

/-! ### Runs of the flow -/

/-- Commands as they are executed: the instructions among them, in order, and loop commands. -/
inductive Unrolls : List Command → List Instruction → Prop
  | nil : Unrolls [] []
  | loop {c : Command} {cs : List Command} {is : List Instruction} (hloop : c.isLoop = true)
      (hrest : Unrolls cs is) : Unrolls (c :: cs) is
  | instruction {i : Instruction} {cs : List Command} {is : List Instruction}
      (hrest : Unrolls cs is) : Unrolls (i.command :: cs) (i :: is)

theorem Unrolls.append {cs ds : List Command} {is js : List Instruction} (h : Unrolls cs is)
    (h' : Unrolls ds js) : Unrolls (cs ++ ds) (is ++ js) := by
  induction h with
  | nil => exact h'
  | loop hloop _ ih => exact .loop hloop ih
  | instruction _ ih => exact .instruction ih

theorem Unrolls.replicate {cs : List Command} {is : List Instruction} (h : Unrolls cs is) (k : ℕ) :
    Unrolls (List.replicate k cs).flatten (List.replicate k is).flatten := by
  induction k with
  | zero => exact .nil
  | succ k ih => exact h.append ih

/-- **The trace of a program** unrolls to its instructions: by induction on the program. -/
theorem Program.unrolls_trace (p : Program) : Unrolls p.trace p.instructions := by
  induction p with
  | nil => exact .nil
  | instruction i rest ih => exact .instruction ih
  | loop n body rest ihbody ihrest =>
      have hiteration : Unrolls (body.trace ++ [Command.loopEnd]) (body.instructions ++ []) :=
        ihbody.append (.loop rfl .nil)
      rw [List.append_nil] at hiteration
      exact .loop rfl ((hiteration.replicate n.val.toNat).append ihrest)

/-- A run that begins with a command fetches it. -/
theorem Flow.Runs.cons {code : BytecodeStore} {f g : Flow} {c : Command} {cs : List Command}
    (h : Flow.Runs code f (c :: cs) g) :
    f.ended = false ∧ (f.fetch code).1 = c ∧ Flow.Runs code (f.step code) cs g := by
  cases h with
  | step hended hrest => exact ⟨hended, rfl, hrest⟩

/-- **The loop of a seek** stops along a run of the flow, by induction on the commands of the
run. If it gets behind the start of the first one, and the target is not the start of any
instruction, then no command is due and the timeline is shown; past the run this depends on
what comes behind it. -/
theorem LightPlayer.AtBeat.reaches {code : BytecodeStore} {t : ℕ} {cs : List Command}
    {is : List Instruction} (hunrolls : Unrolls cs is) {flow g : Flow} {b : Beat}
    (hruns : Flow.Runs code flow cs g) (hplayable : ∀ i ∈ is, i.IsPlayable)
    (hfits : Score.finish b is < 2 ^ 63)
    (hrest : ∀ q : LightPlayer, q.AtBeat g (Score.stop b is) → Score.finish b is < t →
      ∃ r, LoopsTo .exact code t q r ∧ ¬ r.state.control.Due t ∧
        shown (r.state.step .exact code t) = (Score.stop b is).shown)
    {p : LightPlayer} (h : p.AtBeat flow b) :
    ∃ q, LoopsTo .exact code t p q ∧
      (b.time < t → t ∉ Score.starts b is →
        ¬ q.state.control.Due t ∧
          shown (q.state.step .exact code t) = Score.shownAt t b is) := by
  induction hunrolls generalizing flow b p with
  | nil =>
      cases hruns with
      | refl =>
          by_cases hlt : b.time < t
          · obtain ⟨r, hr, hshown⟩ := hrest p h hlt
            exact ⟨r, hr, fun _ _ => hshown⟩
          · have hnot : ¬ Behind t p := by rwa [Behind, h.next]
            exact ⟨p, (reaches_of_not hnot).mpr rfl, fun hlt' => absurd hlt' hlt⟩
  | loop hloop _ ih =>
      obtain ⟨hrunning, hfetch, hruns⟩ := hruns.cons
      rw [← hfetch] at hloop
      obtain ⟨q, hq, hshown⟩ := ih hruns hplayable hfits hrest (h.stepToNext_loop hrunning hloop)
      exact h.of_next hq hshown
  | @instruction i cs is _ ih =>
      obtain ⟨hrunning, hfetch, hruns⟩ := hruns.cons
      have hi := hplayable i (List.mem_cons_self ..)
      have hstop : (b.after i).time < 2 ^ 63 := (Score.time_le_finish (b.after i) is).trans_lt hfits
      obtain ⟨hnext, -⟩ := h.stepToNext_instruction hrunning hfetch hi hstop
      obtain ⟨q, hq, hshown⟩ := ih hruns (fun j hj => hplayable j (List.mem_cons_of_mem _ hj))
        hfits hrest hnext
      refine h.of_next hq fun hlt hstarts => ?_
      rw [Score.starts, List.mem_cons, not_or] at hstarts
      rw [Score.shownAt]
      split
      case isTrue hduring =>
        -- the target comes before the next command: the loop stops at once
        have hnot : ¬ Behind t (p.stepToNext .exact code) := by
          rw [Behind, hnext.next]
          exact not_lt.2 hduring.le
        obtain rfl := (reaches_of_not hnot).mp hq
        exact h.shown_during hrunning hfetch hi hstop hlt.le hduring
      case isFalse hafter =>
        have hne : (b.after i).time ≠ t := by
          rintro rfl
          exact hstarts.2 (Score.time_mem_starts _ _)
        exact hshown (lt_of_le_of_ne (not_lt.1 hafter) hne) hstarts.2

/-! ### Whatever the memory held -/

/-- The flow of the code never comes to a command that jumps or uses the signal source, wherever
it stands. -/
structure Flow.Harmless (code : BytecodeStore) (I : Flow → Prop) : Prop where
  start : I ⟨0, [], code.isEmpty⟩
  command : ∀ f, I f → f.ended = false → (f.fetch code).1.usesChannels = false ∧
    (f.fetch code).1.isJump = false
  step : ∀ f, I f → f.ended = false → I (f.step code)

/-- Instructions that are playable, and loop commands, are harmless. -/
theorem Unrolls.harmless {cs : List Command} {is : List Instruction} (h : Unrolls cs is)
    (hplayable : ∀ i ∈ is, i.IsPlayable) :
    ∀ c ∈ cs, c.usesChannels = false ∧ c.isJump = false := by
  induction h with
  | nil => exact fun c hc => nomatch hc
  | @loop c cs is hloop _ ih =>
      intro c' hc
      rcases List.mem_cons.1 hc with rfl | hc
      · cases c' with
        | loopBegin _ | loopEnd => exact ⟨rfl, rfl⟩
        | _ => cases hloop
      · exact ih hplayable c' hc
  | @instruction i cs is _ ih =>
      intro c' hc
      rcases List.mem_cons.1 hc with rfl | hc
      · have hi := (hplayable i (List.mem_cons_self ..)).1
        refine ⟨?_, i.isJump_command⟩
        cases i with
        | setColorFromChannels _ _ | fadeToColorFromChannels _ _ => cases hi
        | _ => rfl
      · exact ih (fun j hj => hplayable j (List.mem_cons_of_mem _ hj)) c' hc

namespace Executor

variable {code : BytecodeStore} {I : Flow → Prop}

/-- Rewinding goes back to the start of the code. -/
theorem Untriggered.flow_rewind {e : Executor} (h : e.Untriggered code) :
    e.rewind.Untriggered code ∧ e.rewind.flow = ⟨0, [], code.isEmpty⟩ := by
  obtain ⟨s, hs, hcode⟩ := h.store
  have hempty : s.isEmpty = code.isEmpty := by
    rw [BytecodeStore.isEmpty, BytecodeStore.isEmpty, hcode.size_eq]
  simp only [Executor.rewind, hs]
  refine ⟨⟨⟨s.rewind, rfl, hcode.seek 0⟩, h.triggers⟩, ?_⟩
  rw [← hempty]
  rfl

/-- A step of an executor keeps to the flow. -/
theorem Untriggered.step_harmless (hI : Flow.Harmless code I) (F : Rounding) (signals : Signals)
    {e : Executor} (h : e.Untriggered code) (hflow : I e.flow) (now : ℕ) :
    ((e.step F signals now).Untriggered code ∧ I (e.step F signals now).flow) ∧
      ∀ c, e.executes F signals now = some c → c.usesChannels = false := by
  obtain ⟨huntriggered, hstep⟩ :=
    h.step F signals (fun hrunning => (hI.command _ hflow hrunning).2) now
  by_cases hrun : e.ended = false ∧ e.Due now
  · rw [if_pos hrun] at hstep
    obtain ⟨hexec, hnext⟩ := hstep
    refine ⟨⟨huntriggered, hnext ▸ hI.step _ hflow hrun.1⟩, fun c hc => ?_⟩
    obtain rfl := Option.some.inj (hexec.symm.trans hc)
    exact (hI.command _ hflow hrun.1).1
  · rw [if_neg hrun] at hstep
    obtain ⟨hexec, hsame⟩ := hstep
    refine ⟨⟨huntriggered, hsame ▸ hflow⟩, fun c hc => ?_⟩
    rw [hexec] at hc
    cases hc

end Executor

namespace Flow.Harmless

variable {bytes : List UInt8} {I : Flow → Prop}

/-- **No step of a player uses the signal source** of harmless code. -/
theorem steps_leaveSource (hI : Flow.Harmless (.ofArray bytes) I) (F : Rounding)
    (signals : Signals) (memory : UninitMemory) (fuel : ℕ) (calls : List LightPlayerCall) :
    ∀ s ∈ (lightPlayerInit F signals memory bytes).steps F signals fuel calls,
      s.LeavesSource F signals := by
  obtain ⟨-, htriggers, -⟩ := Executor.construct_step F signals memory
  have hrewind : ∀ e : Executor, e.Untriggered (.ofArray bytes) →
      e.rewind.Untriggered (.ofArray bytes) ∧ I e.rewind.flow := fun e he => by
    obtain ⟨huntriggered, hflow⟩ := he.flow_rewind
    exact ⟨huntriggered, hflow ▸ hI.start⟩
  have hinit : (lightPlayerInit F signals memory bytes).executor.Untriggered (.ofArray bytes) ∧
      I (lightPlayerInit F signals memory bytes).executor.flow :=
    hrewind { (Executor.construct memory).step F signals 0 with store := some (.ofArray bytes) }
      ⟨⟨_, rfl, .refl _⟩, htriggers⟩
  have hsteps := BytecodePlayer.steps_invariant
    (I := fun q => q.executor.Untriggered (.ofArray bytes) ∧ I q.executor.flow)
    (P := fun _ => True) (fun _ hq => hrewind _ hq.1)
    (fun q hq _ => (hq.1.step_harmless hI F signals hq.2 _).1)
    (fun q target hq _ _ _ => (hq.1.step_harmless hI F signals hq.2 target).1) hinit fuel calls
    fun _ _ => trivial
  intro s hs
  obtain ⟨huntriggered, hflow⟩ := (hsteps.1 s hs).1
  exact (huntriggered.step_harmless hI F signals hflow s.now).2

/-- **What a player shows** is what the machine shows where a fresh seek lands, if no command is
due there. -/
theorem exists_shown (hI : Flow.Harmless (.ofArray bytes) I) (signals : Signals)
    (memory : UninitMemory) {calls : List LightPlayerCall} {call : LightPlayerCall}
    {v : RgbColor × UInt8}
    (hreach : ∀ c ∈ calls ++ [call], ∃ q, LightPlayer.LoopsTo .exact (.ofArray bytes)
      c.timestamp.toNat (.start (.ofArray bytes)) q)
    (hland : ∀ q, LightPlayer.LoopsTo .exact (.ofArray bytes) call.timestamp.toNat
      (.start (.ofArray bytes)) q → ¬ q.state.control.Due call.timestamp.toNat ∧
        LightPlayer.shown (q.state.step .exact (.ofArray bytes) call.timestamp.toNat) = v) :
    ∃ fuel₀, ∀ fuel ≥ fuel₀, ∃ p,
      lightPlayerAfter .exact signals fuel (lightPlayerInit .exact signals memory bytes)
        (calls ++ [call]) = some p ∧ p.shown = v := by
  have hzero : BytecodePlayer.Harmless .zero bytes := Or.inl rfl
  obtain ⟨fuel₀, p, hp⟩ :=
    BytecodePlayer.exists_lightPlayerAfter_of_reaches .exact signals hzero hreach
  refine ⟨fuel₀, fun fuel hle => ?_⟩
  have hafter := BytecodePlayer.lightPlayerAfter_mono .exact signals hle hp
  obtain ⟨-, hflag, q, hq, hplayer⟩ :=
    BytecodePlayer.landed_after .exact signals hzero calls call hafter
  have hshown : p.shown = v := by
    obtain ⟨hcolor, hpyro⟩ := BytecodePlayer.light_shown .exact hflag
    obtain ⟨hdue, hv⟩ := hland q hq
    rw [BytecodePlayer.shown, hcolor, hpyro, hplayer,
      LightPlayer.state_iterate_of_not_due .exact _ hdue]
    exact hv
  -- what the memory held makes no difference
  obtain ⟨-, -, hrel⟩ := BytecodePlayer.steps_differ
    (BytecodePlayer.differ_lightPlayerInit .exact signals .zero memory bytes) fuel
    (calls ++ [call]) (hI.steps_leaveSource .exact signals .zero fuel _)
  rw [hafter] at hrel
  generalize lightPlayerAfter .exact signals fuel
    (lightPlayerInit .exact signals memory bytes) (calls ++ [call]) = after at hrel ⊢
  cases hrel with
  | some hdiffer =>
      obtain ⟨source, start, rfl⟩ := hdiffer
      exact ⟨_, rfl, hshown⟩

end Flow.Harmless

/-! ### Programs with loops -/

namespace StructuredCode

variable {code : StructuredCode}

/-- The flow of a structured program is harmless. -/
theorem harmless (hplayable : ∀ i ∈ code.program.instructions, i.IsPlayable) :
    Flow.Harmless code.store fun f => ∃ cs g, Flow.Runs code.store f cs g ∧ g.ended = true ∧
      ∀ c ∈ cs, c.usesChannels = false ∧ c.isJump = false where
  start := by
    obtain ⟨g, hruns, -, hended⟩ := code.runs
    refine ⟨code.trace, g, hruns, hended, fun c hc => ?_⟩
    rw [trace] at hc
    split at hc
    · cases hc
    · rcases List.mem_append.1 hc with hc | hc
      · exact code.program.unrolls_trace.harmless hplayable c hc
      · rw [List.mem_singleton.1 hc]
        exact ⟨rfl, rfl⟩
  command := by
    rintro f ⟨cs, g, hruns, hended, hcs⟩ hrunning
    obtain ⟨ds, rfl, -⟩ := hruns.exists_tail hrunning hended
    exact hcs _ (List.mem_cons_self ..)
  step := by
    rintro f ⟨cs, g, hruns, hended, hcs⟩ hrunning
    obtain ⟨ds, rfl, hrest⟩ := hruns.exists_tail hrunning hended
    exact ⟨ds, g, hrest, hended, fun c hc => hcs c (List.mem_cons_of_mem _ hc)⟩

/-- **The loop of a seek** through a structured program stops, and shows the timeline. -/
theorem reaches (hplayable : ∀ i ∈ code.program.instructions, i.IsPlayable)
    (hfits : Score.finish .start code.program.instructions < 2 ^ 63) {t : ℕ} (ht : t < 2 ^ 64) :
    ∃ q, LightPlayer.LoopsTo .exact code.store t (.start code.store) q ∧
      (t ∉ Score.starts .start code.program.instructions → ¬ q.state.control.Due t ∧
        LightPlayer.shown (q.state.step .exact code.store t) =
          Score.shownAt t .start code.program.instructions) := by
  by_cases hnil : code.bytes = []
  case pos =>
    -- nothing is executed from an empty store
    have hended : code.store.isEmpty = true := by
      rw [BytecodeStore.isEmpty, code.size_store, hnil]
      rfl
    have hnone : code.program.instructions = [] := by
      have hbytes : code.program.bytes = [] := (List.append_eq_nil_iff.1 hnil).1
      cases hprogram : code.program with
      | nil => rfl
      | instruction i rest =>
          rw [hprogram] at hbytes
          cases hbytes
      | loop n body rest =>
          rw [hprogram] at hbytes
          cases hbytes
    have hstart : (LightPlayer.start code.store).state.control.ended = true := hended
    obtain ⟨q, hq, hdue, hshown⟩ := LightPlayer.exists_loopsTo_shown code.store ht hstart
    rw [hnone]
    exact ⟨q, hq, fun _ => ⟨hdue, hshown⟩⟩
  have hrunning : code.store.isEmpty = false := by
    rw [BytecodeStore.isEmpty, code.size_store]
    exact decide_eq_false (mt List.length_eq_zero_iff.1 hnil)
  have hruns := @Program.runs _ _ _ [] code.holds_program (by simpa using code.depth_le)
  have hstart := LightPlayer.atBeat_start code.store
  rw [hrunning] at hstart
  obtain ⟨q, hq, hshown⟩ := hstart.reaches code.program.unrolls_trace hruns hplayable hfits
    fun r hr hlt => hr.shown_end rfl (by rw [Nat.zero_add]; exact code.fetch_end) ht hlt
  refine ⟨q, hq, fun hstarts => hshown (Nat.pos_of_ne_zero ?_) hstarts⟩
  rintro rfl
  exact hstarts (Score.time_mem_starts .start _)

end StructuredCode

/-- At a time at which no instruction starts, the timeline of the program is shown. -/
theorem StructuredCode.exists_shown (signals : Signals) (memory : UninitMemory)
    {code : StructuredCode} (hplayable : ∀ i ∈ code.program.instructions, i.IsPlayable)
    (hfits : Score.finish .start code.program.instructions < 2 ^ 63)
    (calls : List LightPlayerCall) {call : LightPlayerCall}
    (hstarts : call.timestamp.toNat ∉ Score.starts .start code.program.instructions) :
    ∃ fuel₀, ∀ fuel ≥ fuel₀, ∃ p,
      lightPlayerAfter .exact signals fuel (lightPlayerInit .exact signals memory code.bytes)
          (calls ++ [call]) = some p ∧
        p.shown = Score.shownAt call.timestamp.toNat .start code.program.instructions := by
  have hreaches := fun c : LightPlayerCall =>
    StructuredCode.reaches hplayable hfits c.timestamp.toNat_lt
  refine (StructuredCode.harmless hplayable).exists_shown signals memory
    (fun c _ => (hreaches c).imp fun _ h => h.1) fun q hq => ?_
  obtain ⟨q', hq', hshown⟩ := hreaches call
  obtain rfl := Reaches.unique hq hq'
  exact hshown hstarts

/-- **A player shows the timeline of a program with loops**, whatever was asked before, at every
time at which no instruction starts: nested loops have the timeline of their bodies written out,
and waits go by the clock that the program has reset. The program has to be over before a signed
clock wraps around. -/
theorem loops_shown (signals : Signals) (memory : UninitMemory) (code : StructuredCode)
    (hplayable : ∀ i ∈ code.program.instructions, i.IsPlayable)
    (hfits : Score.finish .start code.program.instructions < 2 ^ 63)
    (calls : List LightPlayerCall) (call : LightPlayerCall)
    (hstarts : call.timestamp.toNat ∉ Score.starts .start code.program.instructions) :
    ∃ fuel₀, ∀ fuel ≥ fuel₀, ∃ p,
      lightPlayerAfter .exact signals fuel (lightPlayerInit .exact signals memory code.bytes)
          (calls ++ [call]) = some p ∧
        p.shown = Score.shownAt call.timestamp.toNat .start code.program.instructions :=
  StructuredCode.exists_shown signals memory hplayable hfits calls hstarts

/-- Three flashes of a loop, and a wait on a clock that was reset in between. -/
def flashes : StructuredCode where
  program :=
    .loop ⟨3, by decide⟩
      (.instruction (.setWhite ⟨[5], by decide⟩)
        (.instruction (.fadeToBlack ⟨[5], by decide⟩) .nil))
      (.instruction .resetClock
        (.instruction (.waitUntil ⟨[10], by decide⟩)
          (.instruction (.setColor ⟨255, 0, 0⟩ ⟨[40], by decide⟩) .nil)))
  tail := []
  depth_le := by decide
  tail_end := .inl rfl
  length_le := by decide

/-- Halfway through the second fade, and behind the wait. -/
theorem loops_shown_flashes :
    (Score.shownAt 350 .start flashes.program.instructions = (⟨127, 127, 127⟩, 0) ∧
      Score.shownAt 850 .start flashes.program.instructions = (⟨255, 0, 0⟩, 0)) ∧
      ∃ fuel₀, ∀ fuel ≥ fuel₀, ∃ p,
        lightPlayerAfter .exact .silent fuel
            (lightPlayerInit .exact .silent .zero flashes.bytes)
            ([.seek 850] ++ [.getColorAt 350]) = some p ∧
          p.shown = Score.shownAt 350 .start flashes.program.instructions :=
  ⟨by decide,
    loops_shown .silent .zero flashes (by decide) (by decide) [.seek 850] (.getColorAt 350)
      (by decide)⟩

/-! ### Loops without end -/

namespace EndlessCode

open BytecodeStore

variable {code : EndlessCode}

/-- The store over the code. -/
def store (code : EndlessCode) : BytecodeStore := .ofArray code.bytes

/-- The start of an iteration. -/
def head (code : EndlessCode) : Flow :=
  ⟨code.prelude.bytes.length + 2, [⟨code.prelude.bytes.length + 2, 0⟩], false⟩

/-- The commands of an iteration. -/
def iteration (code : EndlessCode) : List Command := code.body.trace ++ [.loopEnd]

/-- The commands that lead to the first iteration. -/
def approach (code : EndlessCode) : List Command := code.prelude.trace ++ [.loopBegin 0]

theorem size_store (code : EndlessCode) : code.store.size = code.bytes.length :=
  Nat.mod_eq_of_lt (Nat.lt_succ_of_le code.length_le)

theorem isEmpty_store (code : EndlessCode) : code.store.isEmpty = false := by
  rw [BytecodeStore.isEmpty, code.size_store, decide_eq_false_iff_not, bytes]
  simp only [List.length_append, List.length_cons]
  omega

theorem holds_bytes (code : EndlessCode) : code.store.Holds 0 code.bytes := by
  refine ⟨rfl, ?_, List.prefix_refl _⟩
  change 0 + code.bytes.length ≤ code.store.size
  rw [code.size_store, Nat.zero_add]

/-- The flow into the loop. -/
theorem runs_approach (code : EndlessCode) :
    Flow.Runs code.store ⟨0, [], false⟩ code.approach code.head := by
  have hholds : code.store.Holds 0 (code.prelude.bytes ++
      ([CommandCode.loopBegin.toByte, 0] ++ (code.body.bytes ++
        CommandCode.loopEnd.toByte :: code.tail))) := by
    have hbytes := code.holds_bytes
    rw [bytes, List.append_assoc] at hbytes
    exact hbytes
  have hprelude := @Program.runs _ _ _ [] hholds.left (by simpa using code.depth_prelude)
  rw [Nat.zero_add] at hprelude
  have hbegin := @Program.runs_loopBegin _ 0 _ [] hholds.right.left (by decide)
  rw [Nat.zero_add] at hbegin
  exact hprelude.trans hbegin

/-- The flow through an iteration, back to its start. -/
theorem runs_iteration (code : EndlessCode) :
    Flow.Runs code.store code.head code.iteration code.head := by
  have hholds : code.store.Holds 0 ((code.prelude.bytes ++ [CommandCode.loopBegin.toByte, 0]) ++
      (code.body.bytes ++ ([CommandCode.loopEnd.toByte] ++ code.tail))) := by
    have hbytes := code.holds_bytes
    rw [bytes, List.append_assoc] at hbytes
    rw [List.append_assoc]
    exact hbytes
  have hright := hholds.right
  rw [List.length_append, Nat.zero_add] at hright
  have hbody := @Program.runs _ _ _ [⟨code.prelude.bytes.length + 2, 0⟩] hright.left
    (by have := code.depth_body; simp only [List.length_singleton]; omega)
  have hend := Flow.Runs.one (f := ⟨_, [⟨code.prelude.bytes.length + 2, 0⟩], false⟩) rfl
    (StandsAt.fetch hright.right.left)
  exact hbody.trans hend

/-- **The flow** of a loop without end runs through any number of iterations. -/
theorem runs (code : EndlessCode) (k : ℕ) :
    Flow.Runs code.store ⟨0, [], false⟩
      (code.approach ++ (List.replicate k code.iteration).flatten) code.head := by
  have hiterations : Flow.Runs code.store code.head (List.replicate k code.iteration).flatten
      code.head := by
    induction k with
    | zero => exact .refl _
    | succ k ih => exact code.runs_iteration.trans ih
  exact code.runs_approach.trans hiterations

theorem unrolls_iteration (code : EndlessCode) :
    Unrolls code.iteration code.body.instructions := by
  have h := code.body.unrolls_trace.append (.loop (c := .loopEnd) rfl .nil)
  rwa [List.append_nil] at h

theorem unrolls (code : EndlessCode) (k : ℕ) :
    Unrolls (code.approach ++ (List.replicate k code.iteration).flatten) (code.iterated k) := by
  have happroach := code.prelude.unrolls_trace.append (.loop (c := .loopBegin 0) rfl .nil)
  rw [List.append_nil] at happroach
  exact happroach.append (code.unrolls_iteration.replicate k)

/-- The flow of a loop without end is harmless. -/
theorem harmless (hplayable : ∀ i ∈ code.iterated 1, i.IsPlayable) :
    Flow.Harmless code.store fun f => ∃ cs, Flow.Runs code.store f cs code.head ∧
      ∀ c ∈ cs, c.usesChannels = false ∧ c.isJump = false := by
  have hiteration : ∀ c ∈ code.iteration, c.usesChannels = false ∧ c.isJump = false :=
    code.unrolls_iteration.harmless fun i hi =>
      hplayable i (code.iterated_succ 0 ▸ List.mem_append_right _ hi)
  have hnext : ∀ f, (∃ cs, Flow.Runs code.store f cs code.head ∧
      ∀ c ∈ cs, c.usesChannels = false ∧ c.isJump = false) → f.ended = false →
      ∃ c cs, Flow.Runs code.store f (c :: cs) code.head ∧
        ∀ c' ∈ c :: cs, c'.usesChannels = false ∧ c'.isJump = false := by
    rintro f ⟨cs, hruns, hcs⟩ hrunning
    cases cs with
    | nil =>
        -- the next iteration begins
        cases hruns with
        | refl =>
            obtain ⟨c, cs, hiter⟩ : ∃ c cs, code.iteration = c :: cs :=
              List.exists_cons_of_ne_nil (List.append_ne_nil_of_right_ne_nil _ (by simp))
            have hruns := code.runs_iteration
            rw [hiter] at hruns hiteration
            exact ⟨c, cs, hruns, hiteration⟩
    | cons c cs => exact ⟨c, cs, hruns, hcs⟩
  refine ⟨?_, fun f hf hrunning => ?_, fun f hf hrunning => ?_⟩
  · rw [code.isEmpty_store]
    exact ⟨_, code.runs 1, (code.unrolls 1).harmless hplayable⟩
  · obtain ⟨c, cs, hruns, hcs⟩ := hnext f hf hrunning
    obtain ⟨-, rfl, -⟩ := hruns.cons
    exact hcs _ (List.mem_cons_self ..)
  · obtain ⟨c, cs, hruns, hcs⟩ := hnext f hf hrunning
    obtain ⟨-, -, hrest⟩ := hruns.cons
    exact ⟨cs, hrest, fun c hc => hcs c (List.mem_cons_of_mem _ hc)⟩

/-- **The loop of a seek** through a loop without end stops within sufficiently many iterations,
and shows their timeline. -/
theorem reaches {k : ℕ} (hplayable : ∀ i ∈ code.iterated k, i.IsPlayable)
    (hfits : Score.finish .start (code.iterated k) < 2 ^ 63) {t : ℕ}
    (ht : t < Score.finish .start (code.iterated k)) :
    ∃ q, LightPlayer.LoopsTo .exact code.store t (.start code.store) q ∧
      (t ∉ Score.starts .start (code.iterated k) → ¬ q.state.control.Due t ∧
        LightPlayer.shown (q.state.step .exact code.store t) =
          Score.shownAt t .start (code.iterated k)) := by
  have hstart := LightPlayer.atBeat_start code.store
  rw [code.isEmpty_store] at hstart
  obtain ⟨q, hq, hshown⟩ := hstart.reaches (code.unrolls k) (code.runs k) hplayable hfits
    fun r hr hlt => absurd ht hlt.asymm
  refine ⟨q, hq, fun hstarts => hshown (Nat.pos_of_ne_zero ?_) hstarts⟩
  rintro rfl
  exact hstarts (Score.time_mem_starts .start _)

end EndlessCode

/-- At a time before the end of some iteration, the timeline of the iterations so far is shown. -/
theorem EndlessCode.exists_shown (signals : Signals) (memory : UninitMemory) (code : EndlessCode)
    (hplayable : ∀ i ∈ code.iterated 1, i.IsPlayable) {k : ℕ}
    (hfits : Score.finish .start (code.iterated k) < 2 ^ 63) {calls : List LightPlayerCall}
    {call : LightPlayerCall}
    (hsoon : ∀ c ∈ calls ++ [call], c.timestamp.toNat < Score.finish .start (code.iterated k))
    (hstarts : call.timestamp.toNat ∉ Score.starts .start (code.iterated k)) :
    ∃ fuel₀, ∀ fuel ≥ fuel₀, ∃ p,
      lightPlayerAfter .exact signals fuel (lightPlayerInit .exact signals memory code.bytes)
          (calls ++ [call]) = some p ∧
        p.shown = Score.shownAt call.timestamp.toNat .start (code.iterated k) := by
  have hreaches := fun (c : LightPlayerCall) hc =>
    EndlessCode.reaches (fun i hi => hplayable i (EndlessCode.mem_iterated_one hi)) hfits
      (hsoon c hc)
  refine (EndlessCode.harmless hplayable).exists_shown signals memory
    (fun c hc => (hreaches c hc).imp fun _ h => h.1) fun q hq => ?_
  obtain ⟨q', hq', hshown⟩ :=
    hreaches call (List.mem_append_right _ (List.mem_singleton_self call))
  obtain rfl := Reaches.unique hq hq'
  exact hshown hstarts

/-- **A player shows the timeline of a loop without end**, whatever was asked before: that of any
number of iterations of which the last one is over later than all the times that were asked for.
Behind the loop nothing is executed. -/
theorem endless_shown (signals : Signals) (memory : UninitMemory) (code : EndlessCode)
    (hplayable : ∀ i ∈ code.iterated 1, i.IsPlayable) (k : ℕ)
    (hfits : Score.finish .start (code.iterated k) < 2 ^ 63) (calls : List LightPlayerCall)
    (call : LightPlayerCall)
    (hsoon : ∀ c ∈ calls ++ [call], c.timestamp.toNat < Score.finish .start (code.iterated k))
    (hstarts : call.timestamp.toNat ∉ Score.starts .start (code.iterated k)) :
    ∃ fuel₀, ∀ fuel ≥ fuel₀, ∃ p,
      lightPlayerAfter .exact signals fuel (lightPlayerInit .exact signals memory code.bytes)
          (calls ++ [call]) = some p ∧
        p.shown = Score.shownAt call.timestamp.toNat .start (code.iterated k) :=
  code.exists_shown signals memory hplayable hfits hsoon hstarts

/-- **What a loop without end shows repeats itself** from the second iteration on, whatever was
asked before: at a time at which no instruction starts, the player shows the same as one period
earlier. -/
theorem endless_periodic (signals : Signals) (memory memory' : UninitMemory) (code : EndlessCode)
    (hplayable : ∀ i ∈ code.iterated 1, i.IsPlayable) (hclock : code.KeepsTime)
    (hperiod : 0 < code.period) (calls calls' : List LightPlayerCall)
    (call call' : LightPlayerCall)
    (hlater : call'.timestamp.toNat = call.timestamp.toNat + code.period)
    (hfits : ∀ c ∈ calls ++ [call] ++ (calls' ++ [call']),
      c.timestamp.toNat + code.period < 2 ^ 63)
    (hsecond : Score.finish .start (code.iterated 1) ≤ call.timestamp.toNat) (k : ℕ)
    (hsoon : call.timestamp.toNat < Score.finish .start (code.iterated k))
    (hstarts : call.timestamp.toNat ∉ Score.starts .start (code.iterated k)) :
    ∃ fuel₀, ∀ fuel ≥ fuel₀, ∃ p p',
      lightPlayerAfter .exact signals fuel (lightPlayerInit .exact signals memory code.bytes)
          (calls ++ [call]) = some p ∧
        lightPlayerAfter .exact signals fuel (lightPlayerInit .exact signals memory' code.bytes)
          (calls' ++ [call']) = some p' ∧
        p'.shown = p.shown := by
  -- all the times are before the end of some iteration, the third one or a later one
  obtain ⟨n, hn, hnfits⟩ :=
    EndlessCode.exists_lt_finish_iterated hclock hperiod (2 ^ 63 - 1 - code.period)
  have hfinish := EndlessCode.finish_iterated hclock
  have hlast := hfits call' (by simp)
  have hone := hfinish 1
  have hall : ∀ c ∈ calls ++ [call] ++ (calls' ++ [call']),
      c.timestamp.toNat < Score.finish .start (code.iterated n) := fun c hc => by
    have := hfits c hc
    omega
  obtain ⟨j, rfl⟩ : ∃ j, n = j + 2 := by
    match n, hn with
    | 0, hn => omega
    | 1, hn => omega
    | j + 2, _ => exact ⟨j, rfl⟩
  have hj : Score.finish .start (code.iterated (j + 2)) =
      Score.finish .start (code.iterated (j + 1)) + code.period :=
    EndlessCode.finish_iterated_succ hclock (j + 1)
  have hbefore : call.timestamp.toNat < Score.finish .start (code.iterated (j + 1)) := by
    have := hall call' (by simp)
    omega
  have hstarts' : ∀ i, call.timestamp.toNat ∉ Score.starts .start (code.iterated i) :=
    fun i hi => hstarts (EndlessCode.mem_starts_of_lt hi hsoon)
  obtain ⟨fuel₁, h₁⟩ := @EndlessCode.exists_shown signals memory code hplayable (j + 2) (by omega)
    calls call (fun c hc => hall c (List.mem_append_left _ hc)) (hstarts' _)
  obtain ⟨fuel₂, h₂⟩ := @EndlessCode.exists_shown signals memory' code hplayable (j + 2) (by omega)
    calls' call' (fun c hc => hall c (List.mem_append_right _ hc)) fun hmem => by
      rw [hlater] at hmem
      exact hstarts' _ (EndlessCode.mem_starts_iterated hclock hsecond hmem)
  refine ⟨max fuel₁ fuel₂, fun fuel hle => ?_⟩
  obtain ⟨p, hp, hpshown⟩ := h₁ fuel ((le_max_left _ _).trans hle)
  obtain ⟨p', hp', hpshown'⟩ := h₂ fuel ((le_max_right _ _).trans hle)
  refine ⟨p, p', hp, hp', ?_⟩
  rw [hpshown', hlater, EndlessCode.shownAt_iterated hclock hsecond, hpshown,
    EndlessCode.iterated_succ code (j + 1), Score.shownAt_append_of_lt (Nat.zero_le _) hbefore]

/-- Red for 100 ms, and then flashes without end. -/
def endlessFlashes : EndlessCode where
  prelude := .instruction (.setColor ⟨255, 0, 0⟩ ⟨[5], by decide⟩) .nil
  body :=
    .instruction (.setWhite ⟨[5], by decide⟩)
      (.instruction (.fadeToBlack ⟨[5], by decide⟩) .nil)
  tail := [0x04, 0, 255, 0, 5]
  depth_prelude := by decide
  depth_body := by decide
  length_le := by decide

/-- Halfway through the second fade, also if the tenth one was asked for before. -/
theorem endless_shown_flashes :
    Score.shownAt 450 .start (endlessFlashes.iterated 11) = (⟨127, 127, 127⟩, 0) ∧
      ∃ fuel₀, ∀ fuel ≥ fuel₀, ∃ p,
        lightPlayerAfter .exact .silent fuel
            (lightPlayerInit .exact .silent .zero endlessFlashes.bytes)
            ([.seek 2050] ++ [.getColorAt 450]) = some p ∧
          p.shown = Score.shownAt 450 .start (endlessFlashes.iterated 11) :=
  ⟨by decide,
    endless_shown .silent .zero endlessFlashes (by decide) 11 (by decide) [.seek 2050]
      (.getColorAt 450) (by decide) (by decide)⟩

/-- The second fade and the third one. -/
theorem endless_periodic_flashes :
    ∃ fuel₀, ∀ fuel ≥ fuel₀, ∃ p p',
      lightPlayerAfter .exact .silent fuel
          (lightPlayerInit .exact .silent .zero endlessFlashes.bytes) ([] ++ [.getColorAt 450]) =
          some p ∧
        lightPlayerAfter .exact .silent fuel
          (lightPlayerInit .exact .silent .zero endlessFlashes.bytes)
          ([.seek 2050] ++ [.getColorAt 650]) = some p' ∧
        p'.shown = p.shown :=
  endless_periodic .silent .zero .zero endlessFlashes (by decide) rfl (by decide) []
    [.seek 2050] (.getColorAt 450) (.getColorAt 650) (by decide) (by decide) (by decide) 2
    (by decide) (by decide)

end Skybrush
