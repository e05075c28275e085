import Skybrush.Library.WhileLoop
import Skybrush.LightMachine

/-!
# The Bytecode Player

The player (`bytecode_player.h`) jumps to any time of a light program by driving an
executor, which only runs forward: it starts over when the target lies behind the
playhead, runs the commands before the target one by one, and then makes one step exactly
at the target. The loop that runs the commands is a `WhileLoop`, and may run forever; a
seek therefore takes fuel, and returns nothing when the fuel does not suffice.

`LightPlayer` is the same player over the light machine, and refined by the bytecode
player. The clock of the executor is only reset by the first step after a rewind, which is
always a step at time zero, so the machine state of a player is read behind that reset.

## Main results

* `BytecodePlayer.playing_init`: a fresh light player is at
  the start of its program.
* `BytecodePlayer.light_seek`: the player refines the light player.
-/

namespace Skybrush

/-! ### The player -/

/-- The player: `BytecodePlayer`. -/
structure BytecodePlayer where
  executor : Executor
  currentTimestamp : ℕ
  nextTimestamp : ℕ

namespace BytecodePlayer

variable (F : Rounding) (signals : Signals)

/-- `BytecodePlayer::BytecodePlayer`, in the given memory. -/
def construct (memory : UninitMemory) : BytecodePlayer where
  executor := (Executor.construct memory).step F signals 0
  currentTimestamp := 0
  nextTimestamp := 0

/-- `BytecodePlayer::setBytecodeStore`. -/
def setBytecodeStore (p : BytecodePlayer) (s : Option BytecodeStore) : BytecodePlayer :=
  { p with executor := p.executor.setBytecodeStore s }

/-- Start over if the target lies behind the playhead. -/
def rewindIfNeeded (p : BytecodePlayer) (target : ℕ) : BytecodePlayer :=
  if target < p.currentTimestamp then
    { executor := p.executor.rewind, currentTimestamp := 0, nextTimestamp := 0 }
  else
    p

/-- The target lies behind the start of the next command: the condition of the loop. -/
def Behind (target : ℕ) (p : BytecodePlayer) : Prop := p.nextTimestamp < target

instance (target : ℕ) : DecidablePred (Behind target) := fun p =>
  inferInstanceAs (Decidable (p.nextTimestamp < target))

/-- Step to the start of the next command: the body of the loop. -/
def stepToNext (p : BytecodePlayer) : BytecodePlayer :=
  let executor := p.executor.step F signals p.nextTimestamp
  let proposal := executor.nextWakeupTime
  { executor := executor
    currentTimestamp := p.nextTimestamp
    nextTimestamp :=
      if proposal < p.nextTimestamp then (p.nextTimestamp + 1) % 2 ^ 64 else proposal }

/-- The last step of a seek, exactly at the target. -/
def stepToTarget (target : ℕ) (p : BytecodePlayer) : BytecodePlayer :=
  let executor := p.executor.step F signals target
  { executor := executor, currentTimestamp := target, nextTimestamp := executor.nextWakeupTime }

/-- Move the playhead: `BytecodePlayer::seek`, with fuel for its loop. -/
def seek (fuel : ℕ) (p : BytecodePlayer) (target : ℕ) : Option BytecodePlayer :=
  (WhileLoop.run (Behind target) (stepToNext F signals) fuel (p.rewindIfNeeded target)).map
    (stepToTarget F signals target)

/-- The current color: `BytecodePlayer::currentColor`. -/
def currentColor (p : BytecodePlayer) : RgbColor := p.executor.currentColor

/-- The current pyro channels: `BytecodePlayer::currentPyroChannels`. -/
def currentPyroChannels (p : BytecodePlayer) : UInt8 := p.executor.shownPyroChannels

end BytecodePlayer

/-! ### The light player -/

/-- A fresh player for a program: `sb_light_player_init`. -/
def lightPlayerInit (F : Rounding) (signals : Signals) (memory : UninitMemory)
    (program : List UInt8) : BytecodePlayer :=
  (BytecodePlayer.construct F signals memory).setBytecodeStore (some (.ofArray program))

/-- A call on a light player, with its timestamp: `sb_light_player_seek`,
`sb_light_player_get_color_at` or `sb_light_player_get_pyro_channels_at`. -/
inductive LightPlayerCall where
  | seek (timestamp : UInt64)
  | getColorAt (timestamp : UInt64)
  | getPyroChannelsAt (timestamp : UInt64)
  deriving DecidableEq, Repr

/-- What a call on a light player returns. -/
inductive LightPlayerResult where
  | ended (ended : Bool) (nextTimestamp : ℕ)
  | color (color : RgbColor)
  | pyroChannels (channels : UInt8)
  deriving DecidableEq, Repr

/-- The timestamp of a call. -/
def LightPlayerCall.timestamp : LightPlayerCall → UInt64
  | seek timestamp | getColorAt timestamp | getPyroChannelsAt timestamp => timestamp

/-- Make a call on a light player. -/
def LightPlayerCall.run (F : Rounding) (signals : Signals) (fuel : ℕ) (p : BytecodePlayer)
    (call : LightPlayerCall) : Option (LightPlayerResult × BytecodePlayer) :=
  match call with
  | seek timestamp => (p.seek F signals fuel timestamp.toNat).map fun p =>
      (.ended p.executor.ended p.nextTimestamp, p)
  | getColorAt timestamp => (p.seek F signals fuel timestamp.toNat).map fun p =>
      (.color p.currentColor, p)
  | getPyroChannelsAt timestamp => (p.seek F signals fuel timestamp.toNat).map fun p =>
      (.pyroChannels p.currentPyroChannels, p)

/-- The player after a sequence of calls. -/
def lightPlayerAfter (F : Rounding) (signals : Signals) (fuel : ℕ) (p : BytecodePlayer) :
    List LightPlayerCall → Option BytecodePlayer
  | [] => some p
  | call :: calls => (call.run F signals fuel p).bind fun r =>
      lightPlayerAfter F signals fuel r.2 calls

/-- Every call moves the playhead to its timestamp. -/
theorem LightPlayerCall.map_snd_run (F : Rounding) (signals : Signals) (fuel : ℕ)
    (p : BytecodePlayer) (call : LightPlayerCall) :
    (call.run F signals fuel p).map Prod.snd = p.seek F signals fuel call.timestamp.toNat := by
  cases call with
  | seek timestamp | getColorAt timestamp | getPyroChannelsAt timestamp =>
      rw [run, Option.map_map]
      exact Option.map_id'

/-! ### The player over the machine -/

/-- The player over the light machine. -/
structure LightPlayer where
  state : LightState
  current : ℕ
  next : ℕ
  deriving DecidableEq, Repr

namespace LightPlayer

variable (F : Rounding) (code : BytecodeStore)

/-- The player at the start of its program. -/
def start : LightPlayer := ⟨.start code, 0, 0⟩

/-- Start over if the target lies behind the playhead. -/
def rewindIfNeeded (p : LightPlayer) (target : ℕ) : LightPlayer :=
  if target < p.current then start code else p

/-- The target lies behind the start of the next command. -/
def Behind (target : ℕ) (p : LightPlayer) : Prop := p.next < target

instance (target : ℕ) : DecidablePred (Behind target) := fun p =>
  inferInstanceAs (Decidable (p.next < target))

/-- Step to the start of the next command. -/
def stepToNext (p : LightPlayer) : LightPlayer :=
  let state := p.state.step F code p.next
  let proposal := state.control.wakeup
  { state := state
    current := p.next
    next := if proposal < p.next then (p.next + 1) % 2 ^ 64 else proposal }

/-- Make one step exactly at the target. -/
def stepToTarget (target : ℕ) (p : LightPlayer) : LightPlayer :=
  let state := p.state.step F code target
  ⟨state, target, state.control.wakeup⟩

/-- Move the playhead, with fuel for the loop. -/
def seek (fuel : ℕ) (p : LightPlayer) (target : ℕ) : Option LightPlayer :=
  (WhileLoop.run (Behind target) (stepToNext F code) fuel (p.rewindIfNeeded code target)).map
    (stepToTarget F code target)

end LightPlayer

/-! ### Refinement -/

namespace Executor

variable (F : Rounding) (signals : Signals)

/-- Once it is carried out, a clock reset is not pending any more. -/
theorem resetClockFlag_handleResetClockFlag (e : Executor) (now : ℕ) :
    (e.handleResetClockFlag F now).resetClockFlag = false := by
  rw [handleResetClockFlag]
  split
  case isTrue => rfl
  case isFalse hflag => exact Bool.eq_false_iff.mpr hflag

/-- Preparing a step leaves no clock reset pending. -/
theorem resetClockFlag_prepare (e : Executor) (now : ℕ) :
    (e.prepare F signals now).resetClockFlag = false := by
  obtain ⟨store, triggers, color, transition, handler, hframe⟩ := prepare_frame F signals e now
  rw [hframe]
  exact resetClockFlag_handleResetClockFlag F e now

/-- No command asks for a clock reset at the next step. -/
theorem resetClockFlag_perform (e : Executor) (c : Command) :
    (e.perform F signals c).resetClockFlag = e.resetClockFlag := by
  cases c with
  | jump address =>
      simp only [perform, jumpTo]
      split <;> rfl
  | loopBegin iterations =>
      simp only [perform, beginLoop]
      split <;> rfl
  | loopEnd =>
      simp only [perform, handleLoopEndCommand]
      split <;> rfl
  | setColorFromChannels channels duration | fadeToColorFromChannels channels duration =>
      obtain ⟨error, hframe⟩ := colorFromChannels_frame signals e channels
      simp only [perform, hframe]
      rfl
  | triggeredJump triggerParams address =>
      obtain ⟨triggers, ended, error, hframe⟩ := setUpTrigger_frame signals e triggerParams
        address.toNat
      rw [perform, hframe]
  | _ => rfl

/-- A step leaves no clock reset pending. -/
theorem resetClockFlag_step (e : Executor) (now : ℕ) :
    (e.step F signals now).resetClockFlag = false := by
  have hprep := resetClockFlag_prepare F signals e now
  have hcase := step_cases F signals e now
  generalize e.step F signals now = e' at hcase ⊢
  cases hcase with
  | ended => exact resetClockFlag_handleResetClockFlag F e now
  | idle => exact hprep
  | noStore => exact hprep
  | perform s => exact (resetClockFlag_perform F signals _ _).trans hprep

/-- At a clock reset at time zero, the clock of the program shows zero. -/
theorem absoluteToInternal_zero : absoluteToInternal F 1 0 0 = 0 := by
  have hdiff : toUnsigned (toSigned 0 - (0 : ℕ)) = 0 := by decide
  have hround : Rounding.roundAway 0 = 0 := by exact_mod_cast Rounding.roundAway_intCast 0
  have hzero : floatToSigned 0 = 0 := by decide
  rw [absoluteToInternal, hdiff, Nat.cast_zero, F.apply_zero, zero_div, F.apply_zero, hround,
    hzero]

/-- A clock reset that is still pending is carried out by the first step. -/
theorem step_handleResetClockFlag (e : Executor) (now : ℕ) :
    e.step F signals now = (e.handleResetClockFlag F now).step F signals now := by
  have hflag := resetClockFlag_handleResetClockFlag F e now
  simp only [step, handleResetClockFlag_of_not F hflag]

variable {code : BytecodeStore}

/-- A pending clock reset keeps an executor inert. -/
theorem Inert.handleResetClockFlag {e : Executor} (h : e.Inert code) (now : ℕ) :
    (e.handleResetClockFlag F now).Inert code := by
  simp only [Executor.handleResetClockFlag]
  split
  · exact h.congr rfl rfl rfl rfl
  · exact h

/-- Rewinding keeps an executor inert. -/
theorem Inert.rewind {e : Executor} (h : e.Inert code) : e.rewind.Inert code := by
  obtain ⟨s, hs, hcode⟩ := h.store
  simp only [Executor.rewind, hs]
  exact ⟨⟨⟨s.rewind, rfl, hcode.seek 0⟩, h.triggers⟩, h.skew, h.channels⟩

/-- What a pending clock reset does at time zero. -/
theorem light_handleResetClockFlag {e : Executor} (hskew : e.clockSkewCompensationFactor = 1)
    (hflag : e.resetClockFlag = true) :
    (e.handleResetClockFlag F 0).light =
      ⟨{ e.light.control with origin := 0, cumulative := 0, wakeup := 0 },
        e.light.look.setColor .black⟩ := by
  have hreset := light_resetClock F hskew 0
  have hafter : ∀ e' : Executor,
      ({ e'.setCurrentColorAndResetTransition .black with
        resetClockFlag := false, nextWakeupTime := 0 } : Executor).light =
          ⟨{ e'.light.control with wakeup := 0 }, e'.light.look.setColor .black⟩ :=
    fun _ => rfl
  have hzero : toUnsigned 0 = 0 := by decide
  rw [handleResetClockFlag, if_pos hflag, hafter, hreset]
  simp only [Control.resetClock, absoluteToInternal_zero, lt_irrefl, if_false, hzero]

/-- **Rewinding**: with its clock reset at time zero, the executor is at the start. -/
theorem Inert.light_rewind {e : Executor} (h : e.Inert code) :
    (e.rewind.handleResetClockFlag F 0).light = LightState.start code := by
  obtain ⟨s, hs, hcode⟩ := h.store
  have hempty : s.isEmpty = code.isEmpty := by
    rw [BytecodeStore.isEmpty, BytecodeStore.isEmpty, hcode.size_eq]
  have hflag : e.rewind.resetClockFlag = true := by rw [Executor.rewind]; rfl
  rw [light_handleResetClockFlag F h.rewind.skew hflag]
  simp only [Executor.rewind, hs, hempty]
  rfl

/-- An executor without bytecode has ended, and nothing was set up in it. -/
theorem construct_step (memory : UninitMemory) :
    let e := (construct memory).step F signals 0
    e.clockSkewCompensationFactor = 1 ∧ (∀ i, (e.triggers i).active = false) ∧
      e.signalSource = memory.signalSource := by
  refine ⟨rfl, fun _ => rfl, rfl⟩

end Executor

namespace BytecodePlayer

variable (F : Rounding) (signals : Signals) {code : BytecodeStore}

/-- The player over the machine that a player represents. -/
def light (p : BytecodePlayer) : LightPlayer :=
  ⟨(p.executor.handleResetClockFlag F 0).light, p.currentTimestamp, p.nextTimestamp⟩

/-- The player plays the given code; a clock reset is only pending at time zero. -/
structure Playing (code : BytecodeStore) (p : BytecodePlayer) : Prop where
  inert : p.executor.Inert code
  pending : p.executor.resetClockFlag = true → p.currentTimestamp = 0 ∧ p.nextTimestamp = 0

/-- A step of the executor of a player is a step of the machine. -/
theorem Playing.light_step {p : BytecodePlayer} (h : p.Playing code) {now : ℕ}
    (hnow : p.executor.resetClockFlag = true → now = 0) :
    ((p.executor.step F signals now).handleResetClockFlag F 0).light =
        (p.light F).state.step F code now ∧
      (p.executor.step F signals now).light = (p.light F).state.step F code now ∧
      (p.executor.step F signals now).Inert code := by
  have hafter := Executor.handleResetClockFlag_of_not F
    (Executor.resetClockFlag_step F signals p.executor now) 0
  rw [hafter, ← and_assoc, and_self]
  cases hflag : p.executor.resetClockFlag with
  | false =>
      have hstep := Executor.light_step F signals h.inert hflag now
      simpa only [light, Executor.handleResetClockFlag_of_not F hflag] using hstep
  | true =>
      obtain rfl := hnow hflag
      rw [Executor.step_handleResetClockFlag]
      exact Executor.light_step F signals (h.inert.handleResetClockFlag F 0)
        (Executor.resetClockFlag_handleResetClockFlag F _ 0) 0

/-- Rewinding refines rewinding. -/
theorem light_rewindIfNeeded {p : BytecodePlayer} (h : p.Playing code) (target : ℕ) :
    (p.rewindIfNeeded target).light F = (p.light F).rewindIfNeeded code target ∧
      (p.rewindIfNeeded target).Playing code := by
  rw [rewindIfNeeded, LightPlayer.rewindIfNeeded]
  by_cases hlt : target < p.currentTimestamp
  · rw [if_pos hlt, if_pos (show target < (p.light F).current from hlt), LightPlayer.start,
      ← h.inert.light_rewind F]
    exact ⟨rfl, h.inert.rewind, fun _ => ⟨rfl, rfl⟩⟩
  · rw [if_neg hlt, if_neg (show ¬ target < (p.light F).current from hlt)]
    exact ⟨rfl, h⟩

/-- The body of the loop refines the body of the loop. -/
theorem light_stepToNext {p : BytecodePlayer} (h : p.Playing code) :
    (p.stepToNext F signals).light F = (p.light F).stepToNext F code ∧
      (p.stepToNext F signals).Playing code := by
  obtain ⟨hlight, hbare, hinert⟩ := h.light_step F signals fun hflag => (h.pending hflag).2
  have hwakeup : (p.executor.step F signals p.nextTimestamp).nextWakeupTime =
      ((p.light F).state.step F code p.nextTimestamp).control.wakeup :=
    congrArg (·.control.wakeup) hbare
  refine ⟨?_, hinert, fun hflag => ?_⟩
  · simp only [stepToNext, LightPlayer.stepToNext, light] at hlight hwakeup ⊢
    rw [hlight, hwakeup]
    rfl
  · rw [stepToNext, Executor.resetClockFlag_step] at hflag
    cases hflag

/-- The last step refines the last step. -/
theorem light_stepToTarget {p : BytecodePlayer} (h : p.Playing code) (target : ℕ)
    (hnow : p.executor.resetClockFlag = true → target = 0) :
    (p.stepToTarget F signals target).light F = (p.light F).stepToTarget F code target ∧
      (p.stepToTarget F signals target).Playing code := by
  obtain ⟨hlight, hbare, hinert⟩ := h.light_step F signals hnow
  have hwakeup : (p.executor.step F signals target).nextWakeupTime =
      ((p.light F).state.step F code target).control.wakeup :=
    congrArg (·.control.wakeup) hbare
  refine ⟨?_, hinert, fun hflag => ?_⟩
  · simp only [stepToTarget, LightPlayer.stepToTarget, light] at hlight hwakeup ⊢
    rw [hlight, hwakeup]
  · rw [stepToTarget, Executor.resetClockFlag_step] at hflag
    cases hflag

/-- **Seeking refines seeking**, with the same fuel, and leaves the player playing with no
clock reset pending. -/
theorem light_seek {p : BytecodePlayer} (h : p.Playing code) (fuel target : ℕ) :
    (p.seek F signals fuel target).map (light F) = (p.light F).seek F code fuel target ∧
      ∀ q ∈ p.seek F signals fuel target,
        q.Playing code ∧ q.executor.resetClockFlag = false := by
  obtain ⟨hlight, hplaying⟩ := light_rewindIfNeeded F h target
  have hkeep : ∀ q, Playing code q → Playing code (stepToNext F signals q) :=
    fun q hq => (light_stepToNext F signals hq).2
  have hmatch : ∀ q, Playing code q →
      light F (stepToNext F signals q) = (light F q).stepToNext F code :=
    fun q hq => (light_stepToNext F signals hq).1
  have hcond : ∀ q, Playing code q → (Behind target q ↔ LightPlayer.Behind target (light F q)) :=
    fun q _ => Iff.rfl
  have hrun := WhileLoop.map_run hkeep hmatch hcond hplaying fuel
  rw [seek, LightPlayer.seek, ← hlight, ← hrun]
  cases hres : WhileLoop.run (Behind target) (stepToNext F signals) fuel
      (p.rewindIfNeeded target) with
  | none => exact ⟨rfl, by simp⟩
  | some q =>
      have hreach : WhileLoop.Reaches (Behind target) (stepToNext F signals) _ q := ⟨fuel, hres⟩
      have hq := hreach.invariant hkeep hplaying
      -- behind the loop a pending reset means that nothing was run, and the target is zero
      have hzero : q.executor.resetClockFlag = true → target = 0 := by
        intro hflag
        have hnot := hreach.not_cond
        rw [Behind, (hq.pending hflag).2] at hnot
        omega
      obtain ⟨hlast, hlastp⟩ := light_stepToTarget F signals hq target hzero
      refine ⟨by simp only [Option.map_some, hlast], fun r hr => ?_⟩
      obtain rfl : stepToTarget F signals target q = r := by simpa using hr
      exact ⟨hlastp, Executor.resetClockFlag_step F signals q.executor target⟩

/-- The uninitialised pointer to the signal source does no harm: it happens to be null,
or the program has no command that uses it. -/
def Harmless (memory : UninitMemory) (program : List UInt8) : Prop :=
  memory.signalSource = none ∨ (BytecodeStore.ofArray program).ChannelFree

/-- **A fresh player** plays its program from the start. -/
theorem playing_init {memory : UninitMemory} {program : List UInt8}
    (h : Harmless memory program) :
    (lightPlayerInit F signals memory program).Playing (.ofArray program) ∧
      (lightPlayerInit F signals memory program).light F =
        LightPlayer.start (.ofArray program) := by
  obtain ⟨hskew, htriggers, hsource⟩ := Executor.construct_step F signals memory
  have hinert : ({ (Executor.construct memory).step F signals 0 with
      store := some (BytecodeStore.ofArray program) } : Executor).Inert (.ofArray program) :=
    ⟨⟨⟨_, rfl, .refl _⟩, htriggers⟩, hskew, h.imp_left hsource.trans⟩
  have hlight := hinert.light_rewind F
  refine ⟨⟨hinert.rewind, fun _ => ⟨rfl, rfl⟩⟩, ?_⟩
  rw [light, LightPlayer.start, ← hlight]
  rfl

/-- What a player shows is what the machine shows. -/
theorem light_shown {p : BytecodePlayer} (hflag : p.executor.resetClockFlag = false) :
    p.currentColor = (p.light F).state.look.color ∧
      p.currentPyroChannels = (p.light F).state.look.pyroChannels &&& 127 := by
  rw [light, Executor.handleResetClockFlag_of_not F hflag]
  exact ⟨rfl, rfl⟩

end BytecodePlayer

end Skybrush
