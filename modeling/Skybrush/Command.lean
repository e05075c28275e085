import Skybrush.BytecodeStore
import Skybrush.Color
import Skybrush.Trigger

/-!
# Fetching Commands

A `Command` is a bytecode command with the arguments that its handler reads.
`BytecodeStore.fetch` reads the next command from a store: the code byte, and then the
arguments in the order in which the command handlers of the executor read them. No
handler acts on anything else before it has read its last argument, so executing a
command is fetching it and then performing it (`Executor.executeNextCommand_eq`).

## Main results

* `BytecodeStore.advances_fetch`: fetching moves the location forward, never behind the
  end of the code, and changes nothing else.
* `BytecodeStore.ChannelFree.fetch`: code without a channel command yields none.
-/

namespace Skybrush

/-- A command with its arguments. Durations are in milliseconds, deadlines and addresses
as they stand in the bytecode; three channel indices are kept like the three channels of
a color. -/
inductive Command where
  | end_
  | nop
  | sleep (duration : ℕ)
  | waitUntil (deadlineInHalfFrames : UInt64)
  | setColor (color : RgbColor) (duration : ℕ)
  | setGray (value : UInt8) (duration : ℕ)
  | setBlack (duration : ℕ)
  | setWhite (duration : ℕ)
  | fadeToColor (color : RgbColor) (duration : ℕ)
  | fadeToGray (value : UInt8) (duration : ℕ)
  | fadeToBlack (duration : ℕ)
  | fadeToWhite (duration : ℕ)
  | loopBegin (iterations : UInt8)
  | loopEnd
  | resetClock
  | setColorFromChannels (channels : RgbColor) (duration : ℕ)
  | fadeToColorFromChannels (channels : RgbColor) (duration : ℕ)
  | jump (address : UInt64)
  | triggeredJump (triggerParams : UInt8) (address : UInt64)
  | setPyro (channelMask : UInt8)
  | setPyroAll (channelValues : UInt8)
  | invalid (code : UInt8)
  deriving DecidableEq, Repr

/-- The parameters of a triggered jump. -/
def Command.triggerParams : Command → Option UInt8
  | .triggeredJump triggerParams _ => some triggerParams
  | _ => none

/-- The edge condition in the parameters of a triggered jump. -/
def triggerEdge (triggerParams : UInt8) : TriggerEdge :=
  if triggerParams &&& 0x10 != 0 then
    if triggerParams &&& 0x20 != 0 then .change else .falling
  else
    if triggerParams &&& 0x20 != 0 then .rising else .none

namespace BytecodeStore

/-- The next duration, in milliseconds: `CommandExecutor::nextDuration`. -/
def nextDuration (s : BytecodeStore) : ℕ × BytecodeStore :=
  ((s.nextVarint.1 * 20).toNat, s.nextVarint.2)

/-- The next three bytes. -/
def nextColor (s : BytecodeStore) : RgbColor × BytecodeStore :=
  (⟨s.next.1, s.next.2.next.1, s.next.2.next.2.next.1⟩, s.next.2.next.2.next.2)

/-- The address of a triggered jump, present only with an edge condition. -/
def nextTriggerAddress (s : BytecodeStore) (triggerParams : UInt8) : UInt64 × BytecodeStore :=
  if triggerEdge triggerParams ≠ .none then s.nextVarint else (0, s)

/-- Read a color, or three channel indices, and a duration. -/
def fetchColorAndDuration (s : BytecodeStore) (command : RgbColor → ℕ → Command) :
    Command × BytecodeStore :=
  (command s.nextColor.1 s.nextColor.2.nextDuration.1, s.nextColor.2.nextDuration.2)

/-- Read a shade of gray and a duration. -/
def fetchGrayAndDuration (s : BytecodeStore) (command : UInt8 → ℕ → Command) :
    Command × BytecodeStore :=
  (command s.next.1 s.next.2.nextDuration.1, s.next.2.nextDuration.2)

/-- Read a duration. -/
def fetchDuration (s : BytecodeStore) (command : ℕ → Command) : Command × BytecodeStore :=
  (command s.nextDuration.1, s.nextDuration.2)

/-- Read the arguments of the command with the given code. -/
def fetchArguments (s : BytecodeStore) : CommandCode → Command × BytecodeStore
  | .end_ => (.end_, s)
  | .nop => (.nop, s)
  | .sleep => s.fetchDuration .sleep
  | .waitUntil => (.waitUntil s.nextVarint.1, s.nextVarint.2)
  | .setColor => s.fetchColorAndDuration .setColor
  | .setGray => s.fetchGrayAndDuration .setGray
  | .setBlack => s.fetchDuration .setBlack
  | .setWhite => s.fetchDuration .setWhite
  | .fadeToColor => s.fetchColorAndDuration .fadeToColor
  | .fadeToGray => s.fetchGrayAndDuration .fadeToGray
  | .fadeToBlack => s.fetchDuration .fadeToBlack
  | .fadeToWhite => s.fetchDuration .fadeToWhite
  | .loopBegin => (.loopBegin s.next.1, s.next.2)
  | .loopEnd => (.loopEnd, s)
  | .resetClock => (.resetClock, s)
  | .setColorFromChannels => s.fetchColorAndDuration .setColorFromChannels
  | .fadeToColorFromChannels => s.fetchColorAndDuration .fadeToColorFromChannels
  | .jump => (.jump s.nextVarint.1, s.nextVarint.2)
  | .triggeredJump =>
      (.triggeredJump s.next.1 (s.next.2.nextTriggerAddress s.next.1).1,
        (s.next.2.nextTriggerAddress s.next.1).2)
  | .setPyro => (.setPyro s.next.1, s.next.2)
  | .setPyroAll => (.setPyroAll s.next.1, s.next.2)

/-- Read the next command. -/
def fetch (s : BytecodeStore) : Command × BytecodeStore :=
  match CommandCode.ofByte s.next.1 with
  | some code => s.next.2.fetchArguments code
  | none => (.invalid s.next.1, s.next.2)

/-! ### What fetching leaves alone -/

/-- The location has moved forward, but not behind the end of the code. -/
structure Advances (s s' : BytecodeStore) : Prop where
  sameCode : s.SameCode s'
  le : s.nextIndex ≤ s'.nextIndex
  le_max : s'.nextIndex ≤ max s.nextIndex s.size

theorem Advances.refl (s : BytecodeStore) : s.Advances s := ⟨.refl s, le_rfl, le_max_left _ _⟩

theorem Advances.trans {s₁ s₂ s₃ : BytecodeStore} (h₁ : s₁.Advances s₂) (h₂ : s₂.Advances s₃) :
    s₁.Advances s₃ := by
  refine ⟨h₁.sameCode.trans h₂.sameCode, h₁.le.trans h₂.le, ?_⟩
  have hsize := h₁.sameCode.size_eq
  have := h₁.le_max
  have := h₂.le_max
  omega

theorem advances_next (s : BytecodeStore) : s.Advances s.next.2 :=
  ⟨sameCode_next s, (nextIndex_next_le s).1, (nextIndex_next_le s).2⟩

theorem advances_nextVarintLoop (fuel : ℕ) (s : BytecodeStore) (result : UInt64)
    (shift : UInt8) : s.Advances (nextVarintLoop fuel s result shift).2 := by
  induction fuel generalizing s result shift with
  | zero => exact .refl s
  | succ fuel ih =>
      rw [nextVarintLoop_succ]
      split
      · exact (advances_next s).trans (ih _ _ _)
      · exact advances_next s

theorem advances_nextVarint (s : BytecodeStore) : s.Advances s.nextVarint.2 :=
  advances_nextVarintLoop _ _ _ _

theorem advances_nextDuration (s : BytecodeStore) : s.Advances s.nextDuration.2 :=
  advances_nextVarint s

theorem advances_nextColor (s : BytecodeStore) : s.Advances s.nextColor.2 :=
  ((advances_next s).trans (advances_next s.next.2)).trans (advances_next s.next.2.next.2)

theorem advances_nextTriggerAddress (s : BytecodeStore) (triggerParams : UInt8) :
    s.Advances (s.nextTriggerAddress triggerParams).2 := by
  rw [nextTriggerAddress]
  split
  · exact advances_nextVarint s
  · exact .refl s

theorem advances_fetchArguments (s : BytecodeStore) (code : CommandCode) :
    s.Advances (s.fetchArguments code).2 := by
  cases code with
  | end_ | nop | loopEnd | resetClock => exact .refl s
  | sleep | setBlack | setWhite | fadeToBlack | fadeToWhite => exact advances_nextDuration s
  | waitUntil | jump => exact advances_nextVarint s
  | setColor | fadeToColor | setColorFromChannels | fadeToColorFromChannels =>
      exact (advances_nextColor s).trans (advances_nextDuration s.nextColor.2)
  | setGray | fadeToGray => exact (advances_next s).trans (advances_nextDuration s.next.2)
  | loopBegin | setPyro | setPyroAll => exact advances_next s
  | triggeredJump => exact (advances_next s).trans (advances_nextTriggerAddress s.next.2 s.next.1)

/-- **Fetching** moves the location forward inside the code, and changes nothing else. -/
theorem advances_fetch (s : BytecodeStore) : s.Advances s.fetch.2 := by
  rw [fetch]
  split
  · exact (advances_next s).trans (advances_fetchArguments _ _)
  · exact advances_next s

end BytecodeStore

/-! ### Channel commands -/

/-- The command with this code reads the signal channels, or sets up a trigger that does. -/
def CommandCode.usesChannels : CommandCode → Bool
  | setColorFromChannels | fadeToColorFromChannels | triggeredJump => true
  | _ => false

/-- The command reads the signal channels, or sets up a trigger that does. -/
def Command.usesChannels : Command → Bool
  | setColorFromChannels .. | fadeToColorFromChannels .. | triggeredJump .. => true
  | _ => false

namespace BytecodeStore

/-- The byte is not the code of a channel command. -/
def NoChannelCode (b : UInt8) : Prop :=
  ∀ code ∈ CommandCode.ofByte b, code.usesChannels = false

/-- No byte of the code is the code of a channel command. -/
def ChannelFree (s : BytecodeStore) : Prop := ∀ b ∈ s.data, NoChannelCode b

/-- A byte that is read is a byte of the code, an end marker or a no-operation. -/
theorem next_mem (s : BytecodeStore) :
    s.next.1 ∈ s.data ∨ s.next.1 = cmdEnd ∨ s.next.1 = cmdNop := by
  simp only [next, nextByte]
  split
  · exact Or.inr (Or.inr rfl)
  · split
    · exact Or.inl (List.get_mem _ _)
    · exact Or.inr (Or.inl rfl)

/-- Fetching the arguments of a command does not change its kind. -/
theorem usesChannels_fetchArguments (s : BytecodeStore) (code : CommandCode) :
    (s.fetchArguments code).1.usesChannels = code.usesChannels := by
  cases code <;> rfl

/-- Code without a channel command yields none. -/
theorem ChannelFree.fetch {s : BytecodeStore} (h : s.ChannelFree) :
    s.fetch.1.usesChannels = false := by
  have hcode : NoChannelCode s.next.1 := by
    rcases next_mem s with hb | hb | hb
    · exact h _ hb
    · rintro code hc
      obtain rfl : CommandCode.end_ = code := Option.some.inj (by rw [hb] at hc; exact hc)
      rfl
    · rintro code hc
      obtain rfl : CommandCode.nop = code := Option.some.inj (by rw [hb] at hc; exact hc)
      rfl
  rw [BytecodeStore.fetch]
  split
  case h_1 code hc =>
    rw [usesChannels_fetchArguments]
    exact hcode code hc
  case h_2 => rfl

/-- Moving the location keeps the code. -/
theorem ChannelFree.of_sameCode {s s' : BytecodeStore} (h : s.ChannelFree) (hs : s.SameCode s') :
    s'.ChannelFree := by
  intro b hb
  exact h b (hs.data_eq ▸ hb)

end BytecodeStore

end Skybrush
