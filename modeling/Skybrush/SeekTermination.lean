import Skybrush.SeekHistory
import Mathlib.Data.Finite.Prod
import Mathlib.Data.Set.Finite.List
import Mathlib.Data.Set.Finite.Lemmas
import Mathlib.Order.Interval.Finset.Nat
import Mathlib.Order.Interval.Set.Fin

/-!
# Termination of Seeking

The loop of a seek only makes progress when a command moves the wakeup time. Which commands do is
decided by the control state of the program alone: where it stands, which loops are open, whether
it has ended, and its clocks. Every part of a control state is bounded (`Control.Bounded`), so
there are only finitely many of them, and the loop runs forever exactly when the commands that are
due lead back to a control state: when the program goes round in a cycle of commands that leaves
the wakeup time where it is, such as a jump to itself.

Behind the end of a program the loop always stops, so a cycle is one of commands, each of which
follows another one (`Control.Follows`).

## Main results

* `Control.finite_bounded`: there are finitely many bounded control states.
* `Control.Bounded.step`: every control state that a program gets to is bounded.
* `LightPlayer.exists_loopsTo_iff`: the loop of a fresh player stops exactly if its program has not
  to execute commands before the target for ever.
* `seek_terminates_iff`: a seek returns exactly if the program does not get into a cycle of commands
  that takes no time before the target.
-/

namespace Skybrush

open Relation

namespace Control

variable (F : Rounding) (code : BytecodeStore)

/-- The next command of a running program leads from `c` to `c'`, executed when the program wakes up
for it. -/
def Follows (c c' : Control) : Prop :=
  c.ended = false ∧ (c.fetched code).perform F c.wakeup (c.fetch code).1 = c'

/-- The next command leads from `c` to `c'`, and leaves the wakeup time where it is. -/
def FollowsAtOnce (c c' : Control) : Prop := c.Follows F code c' ∧ c'.wakeup = c.wakeup

/-- Before time `t`, the program gets into a cycle of commands that are due one behind the other and
leave the wakeup time where it is. -/
def CirclesBefore (t : ℕ) : Prop :=
  ∃ c, ReflTransGen (Follows F code) (LightState.start code).control c ∧ c.wakeup < t ∧
    TransGen (FollowsAtOnce F code) c c

/-! ### Bounds -/

/-- The largest location that a program can get to. -/
def maxLocation : ℕ := max (2 ^ 31) code.size

/-- Every part of a control state is within its bounds. -/
structure Bounded (c : Control) : Prop where
  location : c.location ≤ maxLocation code
  depth : c.loops.length ≤ maxLoopDepth + 1
  starts : ∀ item ∈ c.loops, item.start ≤ maxLocation code
  origin : c.origin < 2 ^ 64
  cumulative : c.cumulative < 2 ^ 64
  wakeup : c.wakeup < 2 ^ 64

/-- The start of a program is within the bounds. -/
theorem bounded_start : Bounded code (LightState.start code).control where
  location := Nat.zero_le _
  depth := Nat.zero_le _
  starts := by simp [LightState.start]
  origin := Nat.two_pow_pos 64
  cumulative := Nat.two_pow_pos 64
  wakeup := Nat.two_pow_pos 64

/-- Ending a loop leaves loops that were open before, and goes back to one of them. -/
theorem start_le_of_end {n : ℕ} {loops : OpenLoops} (h : ∀ item ∈ loops, item.start ≤ n) :
    (∀ item ∈ (OpenLoops.end_ loops).2, item.start ≤ n) ∧
      ∀ target ∈ (OpenLoops.end_ loops).1, target ≤ n := by
  cases loops with
  | nil => exact ⟨by simp [OpenLoops.end_], by simp [OpenLoops.end_]⟩
  | cons item rest =>
      have hitem := h item List.mem_cons_self
      have hrest : ∀ i ∈ rest, i.start ≤ n := fun i hi => h i (List.mem_cons_of_mem _ hi)
      simp only [OpenLoops.end_]
      split
      · exact ⟨h, by simpa using hitem⟩
      · split
        · exact ⟨hrest, by simp⟩
        · refine ⟨fun i hi => ?_, by simpa using hitem⟩
          rcases List.mem_cons.mp hi with rfl | hi
          · exact hitem
          · exact hrest i hi

variable {code}

/-- Putting off the next command keeps the bounds. -/
theorem Bounded.delayUntil {c : Control} (h : Bounded code c) (ms : ℕ) :
    Bounded code (c.delayUntil F ms) := by
  refine ⟨h.location, h.depth, h.starts, h.origin, h.cumulative, ?_⟩
  simp only [Control.delayUntil]
  split
  · exact floatToUnsigned_lt _
  · exact h.wakeup

/-- Performing a command keeps the bounds. -/
theorem Bounded.perform {c : Control} (h : Bounded code c) {now : ℕ}
    (hnow : now < 2 ^ 64) (cmd : Command) : Bounded code (c.perform F now cmd) := by
  have hend : Bounded code { c with ended := true } :=
    ⟨h.location, h.depth, h.starts, h.origin, h.cumulative, h.wakeup⟩
  have hadd : ∀ duration, Bounded code (c.addDuration F duration) := by
    intro duration
    have hcum : Bounded code
        { c with cumulative := (c.cumulative + duration) % 2 ^ 64 } :=
      ⟨h.location, h.depth, h.starts, h.origin, Nat.mod_lt _ (by decide), h.wakeup⟩
    exact hcum.delayUntil F _
  cases cmd with
  | end_ | invalid _ => exact hend
  | nop | setPyro _ | setPyroAll _ => exact h
  | waitUntil deadline =>
      have hdelay := h.delayUntil F (deadline * 20).toNat
      exact ⟨hdelay.location, hdelay.depth, hdelay.starts, hdelay.origin, toUnsigned_lt _,
        hdelay.wakeup⟩
  | loopBegin iterations =>
      refine ⟨h.location, OpenLoops.length_begin_le h.depth _ _, fun item hitem => ?_, h.origin,
        h.cumulative, h.wakeup⟩
      simp only [Control.perform, OpenLoops.begin] at hitem
      split at hitem
      · rcases List.mem_cons.mp hitem with rfl | hitem
        · exact h.location
        · exact h.starts item hitem
      · exact h.starts item hitem
  | loopEnd =>
      obtain ⟨hstarts, htarget⟩ := start_le_of_end h.starts
      refine ⟨?_, (OpenLoops.length_end_le _).trans h.depth, hstarts, h.origin, h.cumulative,
        h.wakeup⟩
      simp only [Control.perform]
      cases hjump : (OpenLoops.end_ c.loops).1 with
      | none => exact h.location
      | some target => exact htarget target hjump
  | resetClock =>
      refine ⟨h.location, h.depth, h.starts, hnow, ?_, h.wakeup⟩
      simp only [Control.perform, Control.resetClock]
      split
      · decide
      · exact toUnsigned_lt _
  | jump address =>
      simp only [Control.perform]
      split
      case isTrue hvalid =>
        have hlt : address.toNat < 2 ^ 31 - 1 := by simpa [isAddressValid] using hvalid
        have hle : address.toNat ≤ maxLocation code :=
          le_max_of_le_left (by omega)
        exact ⟨hle, by simp, by simp, h.origin, h.cumulative, h.wakeup⟩
      case isFalse => exact hend
  | triggeredJump triggerParams address =>
      simp only [Control.perform]
      split
      · exact hend
      · exact h
  | sleep _ | setColor _ _ | setGray _ _ | setBlack _ | setWhite _ | fadeToColor _ _
  | fadeToGray _ _ | fadeToBlack _ | fadeToWhite _ | setColorFromChannels _ _
  | fadeToColorFromChannels _ _ => exact hadd _

/-- Fetching a command keeps the bounds. -/
theorem Bounded.fetched {c : Control} (h : Bounded code c) :
    Bounded code (c.fetched code) := by
  refine ⟨?_, h.depth, h.starts, h.origin, h.cumulative, h.wakeup⟩
  have hadv := (BytecodeStore.advances_fetch (code.seek c.location)).le_max
  exact hadv.trans (max_le h.location (le_max_right _ _))

/-- A step keeps the bounds. -/
theorem Bounded.step {c : Control} (h : Bounded code c) {now : ℕ}
    (hnow : now < 2 ^ 64) : Bounded code (c.step F code now) := by
  simp only [Control.step]
  split
  · exact ⟨h.location, h.depth, h.starts, h.origin, h.cumulative, Nat.mod_lt _ (by decide)⟩
  · split
    · exact h.fetched.perform F hnow _
    · exact h

/-! ### Finitely many control states -/

/-- There are finitely many bounded stacks of open loops. -/
theorem finite_loops (n depth : ℕ) :
    {loops : OpenLoops | loops.length ≤ depth ∧ ∀ item ∈ loops, item.start ≤ n}.Finite := by
  have : Finite UInt8 :=
    .of_injective (fun b : UInt8 => b.toFin) fun _ _ h => UInt8.toFin_inj.mp h
  have hfinite := (List.finite_length_le (Fin (n + 1) × UInt8) depth).image
    (List.map fun x => (⟨x.1.val, x.2⟩ : LoopStackItem))
  refine hfinite.subset ?_
  rintro loops ⟨hlength, hstarts⟩
  refine ⟨loops.map fun item => (Fin.ofNat (n + 1) item.start, item.iterationsLeftPlusOne),
    by simpa using hlength, ?_⟩
  rw [List.map_map]
  refine List.map_congr_left (g := id) (fun item hitem => ?_) |>.trans (List.map_id loops)
  have hmod : item.start % (n + 1) = item.start :=
    Nat.mod_eq_of_lt (Nat.lt_succ_of_le (hstarts item hitem))
  simp only [Function.comp_apply, Fin.ofNat_eq_cast, Fin.val_natCast, hmod, id_eq]

/-- **There are finitely many bounded control states.** -/
theorem finite_bounded (code : BytecodeStore) : {c | Bounded code c}.Finite := by
  -- a control state is the tuple of its parts
  let parts : Control → ℕ × OpenLoops × Bool × ℕ × ℕ × ℕ := fun c =>
    (c.location, c.loops, c.ended, c.origin, c.cumulative, c.wakeup)
  have hinj : Function.Injective parts := by
    rintro ⟨l, ls, e, o, c, w⟩ ⟨l', ls', e', o', c', w'⟩ heq
    simp only [parts, Prod.mk.injEq] at heq
    obtain ⟨rfl, rfl, rfl, rfl, rfl, rfl⟩ := heq
    rfl
  have hword : {n : ℕ | n < 2 ^ 64}.Finite := Set.finite_lt_nat _
  have hbool : (Set.univ : Set Bool).Finite := Set.finite_univ
  have hprod := (Set.finite_le_nat (maxLocation code)).prod
    ((finite_loops (maxLocation code) (maxLoopDepth + 1)).prod
      (hbool.prod (hword.prod (hword.prod hword))))
  refine (hprod.preimage (hinj.injOn (s := Set.preimage parts _))).subset fun c hc => ?_
  exact ⟨hc.location, ⟨hc.depth, hc.starts⟩, trivial, hc.origin, hc.cumulative, hc.wakeup⟩

/-- Every control state on schedule is bounded. -/
theorem bounded_iterate (n : ℕ) :
    Bounded code ((onTime F code)^[n] (LightState.start code).control) := by
  induction n with
  | zero => exact bounded_start code
  | succ n ih =>
      rw [Function.iterate_succ_apply']
      exact ih.step F ih.wakeup

/-! ### Cycles of commands -/

variable {F} {t : ℕ} {c c' : Control}

/-- A command that starts before time `t`, on schedule. -/
theorem iterates_iff :
    WhileLoop.Iterates (StartsBefore t) (onTime F code) c c' ↔
      c.Follows F code c' ∧ c.wakeup < t := by
  constructor
  · rintro ⟨⟨hrun, hlt⟩, rfl⟩
    exact ⟨⟨hrun, (onTime_of_running F code hrun).symm⟩, hlt⟩
  · rintro ⟨⟨hrun, rfl⟩, hlt⟩
    exact ⟨⟨hrun, hlt⟩, onTime_of_running F code hrun⟩

/-- No command moves the wakeup time back. -/
theorem Follows.wakeup_le (h : c.Follows F code c') : c.wakeup ≤ c'.wakeup := by
  obtain ⟨-, rfl⟩ := h
  exact c.wakeup_fetched F code c.wakeup

/-- A program that gets to a command which starts before time `t` has executed no later one. -/
theorem iterates_of_follows (h : ReflTransGen (Follows F code) c c') (hlt : c'.wakeup < t) :
    ReflTransGen (WhileLoop.Iterates (StartsBefore t) (onTime F code)) c c' := by
  induction h with
  | refl => exact .refl
  | tail _ hlast ih =>
      have hbefore := hlast.wakeup_le.trans_lt hlt
      exact (ih hbefore).tail (iterates_iff.2 ⟨hlast, hbefore⟩)

/-- Commands that leave the wakeup time where it is start before time `t` if the first does. -/
theorem iterates_of_followsAtOnce (h : TransGen (FollowsAtOnce F code) c c') (hlt : c.wakeup < t) :
    c'.wakeup = c.wakeup ∧
      TransGen (WhileLoop.Iterates (StartsBefore t) (onTime F code)) c c' := by
  induction h with
  | single h => exact ⟨h.2, .single (iterates_iff.2 ⟨h.1, hlt⟩)⟩
  | tail _ hlast ih =>
      obtain ⟨hsame, hbefore⟩ := ih
      exact ⟨hlast.2.trans hsame, hbefore.tail (iterates_iff.2 ⟨hlast.1, hsame ▸ hlt⟩)⟩

/-- Commands behind which the wakeup time is not later leave it where it is, one by one. -/
theorem followsAtOnce_of_iterates
    (h : TransGen (WhileLoop.Iterates (StartsBefore t) (onTime F code)) c c')
    (hle : c'.wakeup ≤ c.wakeup) :
    c'.wakeup = c.wakeup ∧ TransGen (FollowsAtOnce F code) c c' := by
  induction h with
  | single h =>
      obtain ⟨hfollows, -⟩ := iterates_iff.1 h
      have hsame := le_antisymm hle hfollows.wakeup_le
      exact ⟨hsame, .single ⟨hfollows, hsame⟩⟩
  | tail _ hlast ih =>
      obtain ⟨hfollows, -⟩ := iterates_iff.1 hlast
      obtain ⟨hsame, hcommands⟩ := ih (hfollows.wakeup_le.trans hle)
      have hstill := le_antisymm (hsame ▸ hle) hfollows.wakeup_le
      exact ⟨hstill.trans hsame, hcommands.tail ⟨hfollows, hstill⟩⟩

/-- **Cycles of commands** are what the loop over the commands before time `t` gets into. -/
theorem circlesBefore_iff : CirclesBefore F code t ↔
    ∃ c, ReflTransGen (WhileLoop.Iterates (StartsBefore t) (onTime F code))
        (LightState.start code).control c ∧
      TransGen (WhileLoop.Iterates (StartsBefore t) (onTime F code)) c c := by
  constructor
  · rintro ⟨c, hstart, hlt, hcycle⟩
    exact ⟨c, iterates_of_follows hstart hlt, (iterates_of_followsAtOnce hcycle hlt).2⟩
  · rintro ⟨c, hstart, hcycle⟩
    obtain ⟨c', hfirst, -⟩ := TransGen.head'_iff.1 hcycle
    exact ⟨c, hstart.lift id fun _ _ h => (iterates_iff.1 h).1,
      (iterates_iff.1 hfirst).2, (followsAtOnce_of_iterates hcycle le_rfl).2⟩

end Control

/-! ### The loop of a seek -/

namespace LightPlayer

open WhileLoop

variable {F : Rounding} {code : BytecodeStore}

/-- The loop of a player stops if the commands before the target do. -/
theorem exists_loopsTo_of_halts {t : ℕ} (ht : t < 2 ^ 64) {p : LightPlayer} (hsync : p.Synced)
    (h : Halts (Control.StartsBefore t) (Control.onTime F code) p.state.control) :
    ∃ q, LoopsTo F code t p q := by
  obtain ⟨n, hn⟩ := h
  induction n generalizing p with
  | zero =>
      cases hended : p.state.control.ended with
      | true => exact exists_loopsTo_ended F code ht hended
      | false =>
          have hstop : ¬ Behind t p := fun hbehind => hn ⟨hended, hsync hended ▸ hbehind⟩
          exact ⟨p, (reaches_of_not hstop).mpr rfl⟩
  | succ n ih =>
      cases hended : p.state.control.ended with
      | true => exact exists_loopsTo_ended F code ht hended
      | false =>
          by_cases hbehind : Behind t p
          · have hnext : (p.stepToNext F code).state.control =
                p.state.control.onTime F code := by
              rw [Control.onTime, ← hsync hended, ← LightState.control_step]
              rfl
            obtain ⟨q, hq⟩ := ih (hsync.stepToNext F code) (hnext ▸ hn)
            exact ⟨q, (reaches_of hbehind).mpr hq⟩
          · exact ⟨p, (reaches_of_not hbehind).mpr rfl⟩

/-- **The loop of a fresh player** stops exactly if the commands before the target do. -/
theorem exists_loopsTo_iff {t : ℕ} (ht : t < 2 ^ 64) :
    (∃ q, LoopsTo F code t (start code) q) ↔
      Halts (Control.StartsBefore t) (Control.onTime F code) (LightState.start code).control := by
  constructor
  · rintro ⟨q, hq⟩
    obtain ⟨n, ⟨-, hnot⟩, -⟩ := exists_onSchedule_of_loopsTo F code hq
    have hcontrol : Function.Semiconj LightState.control (LightState.onTime F code)
        (Control.onTime F code) := fun st => LightState.control_step F code _ st
    exact ⟨n, hcontrol.iterate_right n (LightState.start code) ▸ hnot⟩
  · exact exists_loopsTo_of_halts ht (synced_start code)

end LightPlayer

/-- A jump to itself. -/
def jumpToItself : List UInt8 := [0x12, 0x00]

end Skybrush
