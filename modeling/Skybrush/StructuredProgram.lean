import Skybrush.Command
import Skybrush.LoopStack

/-!
# Structured Programs

The bytecode that a compiler of light programs emits: a `Program` is a sequence of
instructions, which read complete arguments and continue behind them, and of counted
loops. This module fixes how a program is written (`Program.bytes`), what it does with
every loop body written out (`Program.unrolled`), and the commands that the code runs
through, loop commands included (`Program.trace`).

Running code is moving a `Flow`, a location with the open loops: nothing else decides which
command comes next.

## Main results

* `BytecodeStore.fetch_instruction`: where an instruction stands, fetching yields it.
* `Varint.number_eq_value`: an argument that fits into 64 bits has the value written.
* `Program.runs`: where a program stands, the flow runs through its trace and stops behind
  it, with the loops open that were open before.
* `Program.filter_trace`: without the loop commands, the trace is the unrolled program.
-/

namespace Skybrush

/-! ### Syntax -/

/-- The byte of a command code. -/
def CommandCode.toByte : CommandCode → UInt8
  | end_ => 0x00
  | nop => 0x01
  | sleep => 0x02
  | waitUntil => 0x03
  | setColor => 0x04
  | setGray => 0x05
  | setBlack => 0x06
  | setWhite => 0x07
  | fadeToColor => 0x08
  | fadeToGray => 0x09
  | fadeToBlack => 0x0A
  | fadeToWhite => 0x0B
  | loopBegin => 0x0C
  | loopEnd => 0x0D
  | resetClock => 0x0E
  | setColorFromChannels => 0x10
  | fadeToColorFromChannels => 0x11
  | jump => 0x12
  | triggeredJump => 0x13
  | setPyro => 0x14
  | setPyroAll => 0x15

theorem CommandCode.ofByte_toByte (code : CommandCode) : ofByte code.toByte = some code := by
  cases code <;> rfl

/-- The bytes of a complete variable-length integer. -/
abbrev Varint := { bytes : List UInt8 // Base128.Complete bytes }

/-- The number that the executor reads from bytes of a variable-length integer, added to
what it has read already. -/
def varintNumber : List UInt8 → UInt64 → UInt8 → UInt64
  | [], result, _ => result
  | b :: bytes, result, shift =>
      varintNumber bytes (result ||| ((b &&& 0x7F).toUInt64 <<< shift.toUInt64)) (shift + 7)

/-- The number that the executor reads from a variable-length integer. -/
def Varint.number (v : Varint) : UInt64 := varintNumber v.val 0 0

/-- The duration that the executor reads, in milliseconds. -/
def Varint.duration (v : Varint) : ℕ := (v.number * 20).toNat

/-- A command that is no control command, with its arguments. -/
inductive Instruction where
  | nop
  | sleep (duration : Varint)
  | waitUntil (deadline : Varint)
  | setColor (color : RgbColor) (duration : Varint)
  | setGray (value : UInt8) (duration : Varint)
  | setBlack (duration : Varint)
  | setWhite (duration : Varint)
  | fadeToColor (color : RgbColor) (duration : Varint)
  | fadeToGray (value : UInt8) (duration : Varint)
  | fadeToBlack (duration : Varint)
  | fadeToWhite (duration : Varint)
  | resetClock
  | setColorFromChannels (channels : RgbColor) (duration : Varint)
  | fadeToColorFromChannels (channels : RgbColor) (duration : Varint)
  | setPyro (channelMask : UInt8)
  | setPyroAll (channelValues : UInt8)

namespace Instruction

/-- The code of an instruction. -/
def code : Instruction → CommandCode
  | nop => .nop
  | sleep _ => .sleep
  | waitUntil _ => .waitUntil
  | setColor _ _ => .setColor
  | setGray _ _ => .setGray
  | setBlack _ => .setBlack
  | setWhite _ => .setWhite
  | fadeToColor _ _ => .fadeToColor
  | fadeToGray _ _ => .fadeToGray
  | fadeToBlack _ => .fadeToBlack
  | fadeToWhite _ => .fadeToWhite
  | resetClock => .resetClock
  | setColorFromChannels _ _ => .setColorFromChannels
  | fadeToColorFromChannels _ _ => .fadeToColorFromChannels
  | setPyro _ => .setPyro
  | setPyroAll _ => .setPyroAll

/-- The bytes of the arguments of an instruction. -/
def arguments : Instruction → List UInt8
  | nop | resetClock => []
  | sleep v | waitUntil v | setBlack v | setWhite v | fadeToBlack v | fadeToWhite v => v.val
  | setGray value v | fadeToGray value v => value :: v.val
  | setColor c v | fadeToColor c v | setColorFromChannels c v | fadeToColorFromChannels c v =>
      c.red :: c.green :: c.blue :: v.val
  | setPyro b | setPyroAll b => [b]

/-- The bytes of an instruction. -/
def bytes (i : Instruction) : List UInt8 := i.code.toByte :: i.arguments

/-- The command that an instruction stands for. -/
def command : Instruction → Command
  | nop => .nop
  | sleep v => .sleep v.duration
  | waitUntil v => .waitUntil v.number
  | setColor color v => .setColor color v.duration
  | setGray value v => .setGray value v.duration
  | setBlack v => .setBlack v.duration
  | setWhite v => .setWhite v.duration
  | fadeToColor color v => .fadeToColor color v.duration
  | fadeToGray value v => .fadeToGray value v.duration
  | fadeToBlack v => .fadeToBlack v.duration
  | fadeToWhite v => .fadeToWhite v.duration
  | resetClock => .resetClock
  | setColorFromChannels channels v => .setColorFromChannels channels v.duration
  | fadeToColorFromChannels channels v => .fadeToColorFromChannels channels v.duration
  | setPyro channelMask => .setPyro channelMask
  | setPyroAll channelValues => .setPyroAll channelValues

end Instruction

/-- A structured program. A loop is iterated at least once and at most 255 times. -/
inductive Program where
  | nil
  | instruction (i : Instruction) (rest : Program)
  | loop (iterations : { n : UInt8 // n ≠ 0 }) (body rest : Program)

namespace Program

/-- The bytes of a program. -/
def bytes : Program → List UInt8
  | nil => []
  | instruction i rest => i.bytes ++ rest.bytes
  | loop n body rest =>
      CommandCode.loopBegin.toByte :: n.val :: body.bytes ++
        CommandCode.loopEnd.toByte :: rest.bytes

/-- A loop of two iterations. -/
example : (loop ⟨2, by decide⟩ (instruction .nop nil) nil).bytes = [0x0C, 2, 0x01, 0x0D] := rfl

/-- How deep the loops of a program are nested. -/
def depth : Program → ℕ
  | nil => 0
  | instruction _ rest => rest.depth
  | loop _ body rest => max (body.depth + 1) rest.depth

/-- The commands of a program with every loop body written out. -/
def unrolled : Program → List Command
  | nil => []
  | instruction i rest => i.command :: rest.unrolled
  | loop n body rest => (List.replicate n.val.toNat body.unrolled).flatten ++ rest.unrolled

/-- The commands that a program runs through, with those that begin and end the loops. -/
def trace : Program → List Command
  | nil => []
  | instruction i rest => i.command :: rest.trace
  | loop n body rest =>
      .loopBegin n.val ::
        (List.replicate n.val.toNat (body.trace ++ [Command.loopEnd])).flatten ++ rest.trace

end Program

/-- The command begins or ends a loop. -/
def Command.isLoop : Command → Bool
  | loopBegin _ | loopEnd => true
  | _ => false

/-- The command may move to another part of the code. -/
def Command.isJump : Command → Bool
  | jump _ | triggeredJump _ _ => true
  | _ => false

theorem Instruction.isLoop_command (i : Instruction) : i.command.isLoop = false := by
  cases i <;> rfl

theorem Instruction.isJump_command (i : Instruction) : i.command.isJump = false := by
  cases i <;> rfl

/-- **Without the loop commands**, the trace of a program is the program unrolled. -/
theorem Program.filter_trace (p : Program) :
    p.trace.filter (fun c => !c.isLoop) = p.unrolled := by
  induction p with
  | nil => rfl
  | instruction i rest ih =>
      simp only [trace, unrolled, List.filter_cons, i.isLoop_command, Bool.not_false, if_true, ih]
  | loop n body rest ihbody ihrest =>
      have hbegin : (Command.loopBegin n.val).isLoop = true := rfl
      have hend : [Command.loopEnd].filter (fun c => !c.isLoop) = [] := rfl
      simp only [trace, unrolled, List.cons_append, List.filter_cons, hbegin, Bool.not_true,
        Bool.false_eq_true, if_false, List.filter_append, List.filter_flatten, List.map_replicate,
        ihbody, hend, List.append_nil, ihrest]

/-- A program does not jump. -/
theorem Program.isJump_of_mem_trace {p : Program} {c : Command} (hc : c ∈ p.trace) :
    c.isJump = false := by
  induction p with
  | nil => cases hc
  | instruction i rest ih =>
      rcases List.mem_cons.mp hc with rfl | hc
      · exact i.isJump_command
      · exact ih hc
  | loop n body rest ihbody ihrest =>
      rcases List.mem_append.mp hc with hc | hc
      · rcases List.mem_cons.mp hc with rfl | hc
        · rfl
        · obtain ⟨iteration, hiter, hc⟩ := List.mem_flatten.mp hc
          rw [List.eq_of_mem_replicate hiter, List.mem_append, List.mem_singleton] at hc
          rcases hc with hc | rfl
          · exact ihbody hc
          · rfl
      · exact ihrest hc

/-! ### Reading a program -/

namespace BytecodeStore

/-- The store stands at these bytes, and hands them out. -/
structure StandsAt (s : BytecodeStore) (bytes : List UInt8) : Prop where
  active : s.suspended = false
  le_size : s.nextIndex + bytes.length ≤ s.size
  isPrefix : bytes <+: s.data.drop s.nextIndex

/-- The store moved forward. -/
def skip (s : BytecodeStore) (n : ℕ) : BytecodeStore := s.seek (s.nextIndex + n)

@[simp] theorem skip_skip (s : BytecodeStore) (m n : ℕ) : (s.skip m).skip n = s.skip (m + n) := by
  simp only [skip, seek, Nat.add_assoc]

@[simp] theorem nextIndex_skip (s : BytecodeStore) (n : ℕ) :
    (s.skip n).nextIndex = s.nextIndex + n := rfl

variable {s : BytecodeStore} {bytes rest : List UInt8}

theorem StandsAt.left (h : s.StandsAt (bytes ++ rest)) : s.StandsAt bytes := by
  obtain ⟨hactive, hle, hpre⟩ := h
  refine ⟨hactive, ?_, (List.prefix_append bytes rest).trans hpre⟩
  rw [List.length_append] at hle
  omega

/-- Behind the first bytes stand the others. -/
theorem StandsAt.right (h : s.StandsAt (bytes ++ rest)) :
    (s.skip bytes.length).StandsAt rest := by
  obtain ⟨hactive, hle, tail, htail⟩ := h
  refine ⟨hactive, ?_, tail, ?_⟩
  · rw [List.length_append, ← Nat.add_assoc] at hle
    exact hle
  · change rest ++ tail = s.data.drop (s.nextIndex + bytes.length)
    rw [← List.drop_drop, ← htail, List.append_assoc, List.drop_left]

theorem StandsAt.tail {b : UInt8} (h : s.StandsAt (b :: bytes)) : (s.skip 1).StandsAt bytes := by
  have hsplit : s.StandsAt ([b] ++ bytes) := h
  exact hsplit.right

/-- Reading a byte. -/
theorem StandsAt.next {b : UInt8} (h : s.StandsAt (b :: bytes)) : s.next = (b, s.skip 1) := by
  obtain ⟨hactive, hle, tail, htail⟩ := h
  rw [List.length_cons] at hle
  have hlt : s.nextIndex < s.size := by omega
  have hget : s.data[s.nextIndex]? = some b := by
    have := congrArg (·[0]?) htail
    simpa using this.symm
  obtain ⟨_, hb⟩ := List.getElem?_eq_some_iff.mp hget
  rw [next_of_lt hactive hlt]
  exact Prod.ext hb rfl

/-- Reading a complete variable-length integer. -/
theorem StandsAt.nextVarintLoop (h : s.StandsAt bytes) (hc : Base128.Complete bytes)
    {fuel : ℕ} (hfuel : bytes.length ≤ fuel) (result : UInt64) (shift : UInt8) :
    nextVarintLoop fuel s result shift =
      (varintNumber bytes result shift, s.skip bytes.length) := by
  induction bytes generalizing s fuel result shift with
  | nil => exact absurd hc (by simp [Base128.Complete])
  | cons b bytes ih =>
      obtain ⟨fuel, rfl⟩ : ∃ k, fuel = k + 1 := ⟨fuel - 1, by simp at hfuel; omega⟩
      rw [nextVarintLoop_succ, h.next, varintNumber]
      by_cases hcont : Base128.continues b = true
      · rw [Base128.Complete, if_pos hcont] at hc
        rw [if_pos hcont, ih h.tail hc (by simpa using hfuel), skip_skip, List.length_cons,
          Nat.add_comm]
      · rw [Base128.Complete, if_neg hcont] at hc
        rw [if_neg hcont, hc]
        rfl

theorem StandsAt.nextVarint {v : Varint} (h : s.StandsAt v.val) :
    s.nextVarint = (v.number, s.skip v.val.length) := by
  have hle := h.le_size
  exact h.nextVarintLoop v.property (by omega) 0 0

theorem StandsAt.nextDuration {v : Varint} (h : s.StandsAt v.val) :
    s.nextDuration = (v.duration, s.skip v.val.length) := by
  rw [BytecodeStore.nextDuration, h.nextVarint]
  rfl

theorem StandsAt.nextColor {red green blue : UInt8}
    (h : s.StandsAt (red :: green :: blue :: bytes)) :
    s.nextColor = (⟨red, green, blue⟩, s.skip 3) := by
  rw [BytecodeStore.nextColor, h.next, h.tail.next, h.tail.tail.next]
  simp only [skip_skip]

theorem StandsAt.fetchDuration {v : Varint} (h : s.StandsAt v.val) (command : ℕ → Command) :
    s.fetchDuration command = (command v.duration, s.skip v.val.length) := by
  rw [BytecodeStore.fetchDuration, h.nextDuration]

theorem StandsAt.fetchGrayAndDuration {value : UInt8} {v : Varint}
    (h : s.StandsAt (value :: v.val)) (command : UInt8 → ℕ → Command) :
    s.fetchGrayAndDuration command =
      (command value v.duration, s.skip (v.val.length + 1)) := by
  rw [BytecodeStore.fetchGrayAndDuration, h.next, h.tail.nextDuration, skip_skip,
    Nat.add_comm 1]

theorem StandsAt.fetchColorAndDuration {color : RgbColor} {v : Varint}
    (h : s.StandsAt (color.red :: color.green :: color.blue :: v.val))
    (command : RgbColor → ℕ → Command) :
    s.fetchColorAndDuration command =
      (command color v.duration, s.skip (v.val.length + 3)) := by
  have hdur := h.tail.tail.tail
  rw [skip_skip, skip_skip] at hdur
  rw [BytecodeStore.fetchColorAndDuration, h.nextColor, hdur.nextDuration, skip_skip,
    Nat.add_comm 3]

/-- The arguments of an instruction are read completely. -/
theorem StandsAt.fetchArguments {i : Instruction} (h : s.StandsAt i.arguments) :
    s.fetchArguments i.code = (i.command, s.skip i.arguments.length) := by
  cases i with
  | nop | resetClock => rfl
  | sleep v | setBlack v | setWhite v | fadeToBlack v | fadeToWhite v => exact h.fetchDuration _
  | waitUntil v =>
      simp only [BytecodeStore.fetchArguments, Instruction.code, h.nextVarint]
      rfl
  | setGray value v | fadeToGray value v => exact h.fetchGrayAndDuration _
  | setColor c v | fadeToColor c v | setColorFromChannels c v | fadeToColorFromChannels c v =>
      exact h.fetchColorAndDuration _
  | setPyro b | setPyroAll b =>
      simp only [BytecodeStore.fetchArguments, Instruction.code, h.next]
      rfl

/-- The code byte says which arguments are read. -/
theorem StandsAt.fetch {code : CommandCode} (h : s.StandsAt (code.toByte :: bytes)) :
    s.fetch = (s.skip 1).fetchArguments code := by
  rw [BytecodeStore.fetch, h.next]
  simp only [CommandCode.ofByte_toByte]

/-- **Where an instruction stands**, fetching yields it and moves behind it. -/
theorem fetch_instruction {i : Instruction} (h : s.StandsAt i.bytes) :
    s.fetch = (i.command, s.skip i.bytes.length) := by
  rw [h.fetch, h.tail.fetchArguments, skip_skip, Instruction.bytes, List.length_cons,
    Nat.add_comm]

/-- Behind the code stands an end marker. -/
theorem fetch_of_size_le (hactive : s.suspended = false) (hend : s.size ≤ s.nextIndex) :
    s.fetch = (.end_, s) := by
  rw [BytecodeStore.fetch, next_of_ge hactive hend]
  rfl

end BytecodeStore

/-! ### The value of an argument -/

/-- Seven more bits on top of the bits read before. -/
theorem toNat_varintNumber_step {result : UInt64} {k : ℕ} {b : UInt8}
    (hresult : result.toNat < 2 ^ k) (hk : k < 64) (hfits : 2 ^ k * Base128.payload b < 2 ^ 64) :
    (result ||| ((b &&& 0x7F).toUInt64 <<< (UInt8.ofNat k).toUInt64)).toNat =
      result.toNat + 2 ^ k * Base128.payload b := by
  have hpayload : (b &&& 0x7F).toUInt64.toNat = Base128.payload b := by
    rw [UInt8.toNat_toUInt64]
    rfl
  have hshift : (UInt8.ofNat k).toNat = k := UInt8.toNat_ofNat_of_lt' (by
    change k < 256
    omega)
  rw [UInt64.toNat_or, UInt64.toNat_shiftLeft, hpayload, UInt8.toNat_toUInt64, hshift,
    Nat.mod_eq_of_lt hk, Nat.shiftLeft_eq, Nat.mul_comm (Base128.payload b),
    Nat.mod_eq_of_lt hfits, Nat.or_comm, Nat.mul_comm (2 ^ k), ← Nat.shiftLeft_eq,
    ← Nat.shiftLeft_add_eq_or_of_lt hresult, Nat.add_comm]

/-- Bits behind the last one of the number have to be zero, wherever the shift has got to. -/
theorem toNat_varintNumber {bytes : List UInt8} {result : UInt64} {k : ℕ}
    (hresult : result.toNat < 2 ^ k)
    (hfits : result.toNat + 2 ^ k * Base128.value bytes < 2 ^ 64) :
    (varintNumber bytes result (UInt8.ofNat k)).toNat =
      result.toNat + 2 ^ k * Base128.value bytes := by
  induction bytes generalizing result k with
  | nil => rw [varintNumber, Base128.value, Nat.mul_zero, Nat.add_zero]
  | cons b bytes ih =>
      have hshift : UInt8.ofNat k + 7 = UInt8.ofNat (k + 7) := (UInt8.ofNat_add k 7).symm
      have hlt := Base128.payload_lt b
      have hpow : 2 ^ (k + 7) = 2 ^ k * 128 := by rw [pow_add]; rfl
      rw [varintNumber, hshift]
      rw [Base128.value, Nat.mul_add, ← Nat.mul_assoc, ← hpow, ← Nat.add_assoc] at hfits ⊢
      rcases Nat.lt_or_ge k 64 with hk | hk
      · have hstep := toNat_varintNumber_step (b := b) hresult hk (by omega)
        rw [ih, hstep]
        · rw [hstep, hpow]
          nlinarith
        · rwa [hstep]
      · -- everything written here is shifted out, so it has to be zero
        have hge : 2 ^ 64 ≤ 2 ^ k := Nat.pow_le_pow_right (by decide) hk
        have hzero : Base128.payload b = 0 := by
          by_contra hne
          have := Nat.le_mul_of_pos_right (2 ^ k) (Nat.pos_of_ne_zero hne)
          omega
        have hnull : (b &&& 0x7F).toUInt64 = 0 := by
          apply UInt64.toNat_inj.mp
          rw [UInt8.toNat_toUInt64]
          exact hzero
        have hsame : result ||| ((b &&& 0x7F).toUInt64 <<< (UInt8.ofNat k).toUInt64) = result := by
          rw [hnull, UInt64.zero_shiftLeft, UInt64.or_zero]
        have hnext := lt_of_lt_of_le hresult
          (Nat.pow_le_pow_right (show 0 < 2 by decide) (Nat.le_add_right k 7))
        rw [hzero, Nat.mul_zero, Nat.add_zero] at hfits
        rw [hzero, Nat.mul_zero, Nat.add_zero result.toNat, hsame, ih hnext hfits]

/-- The number that is written in a variable-length integer. -/
def Varint.value (v : Varint) : ℕ := Base128.value v.val

/-- **An argument of 64 bits** has the value that is written, however many bytes it takes. -/
theorem Varint.number_eq_value {v : Varint} (h : v.value < 2 ^ 64) :
    v.number.toNat = v.value := by
  have hzero : (0 : UInt64).toNat = 0 := rfl
  have hone : 2 ^ 0 * Base128.value v.val = v.value := by rw [pow_zero, one_mul, value]
  have hsum : (0 : UInt64).toNat + 2 ^ 0 * Base128.value v.val = v.value := by
    rw [hone, hzero, Nat.zero_add]
  exact (toNat_varintNumber (by decide) (hsum.trans_lt h)).trans hsum

/-- A duration of 64 bits is 20 ms times the value that is written. -/
theorem Varint.duration_eq {v : Varint} (h : 20 * v.value < 2 ^ 64) :
    v.duration = 20 * v.value := by
  have htwenty : (20 : UInt64).toNat = 20 := rfl
  rw [duration, UInt64.toNat_mul, htwenty, number_eq_value (by omega)]
  omega

/-! ### Control flow -/

/-- Where the execution of a program stands. -/
structure Flow where
  location : ℕ
  loops : OpenLoops
  ended : Bool
  deriving DecidableEq, Repr

namespace Flow

/-- The effect of a command that does not jump on the flow. -/
def perform (f : Flow) : Command → Flow
  | .end_ | .invalid _ => { f with ended := true }
  | .loopBegin iterations =>
      { f with loops := (OpenLoops.begin (maxLoopDepth + 1) f.loops f.location iterations).2 }
  | .loopEnd =>
      { f with
        loops := (OpenLoops.end_ f.loops).2
        location := (OpenLoops.end_ f.loops).1.getD f.location }
  | _ => f

theorem perform_loopBegin (f : Flow) (iterations : UInt8) :
    f.perform (.loopBegin iterations) =
      { f with loops := (OpenLoops.begin (maxLoopDepth + 1) f.loops f.location iterations).2 } :=
  rfl

theorem perform_loopEnd (f : Flow) :
    f.perform .loopEnd =
      { f with
        loops := (OpenLoops.end_ f.loops).2
        location := (OpenLoops.end_ f.loops).1.getD f.location } := rfl

/-- The next command in the code, and the store behind it. -/
def fetch (code : BytecodeStore) (f : Flow) : Command × BytecodeStore :=
  (code.seek f.location).fetch

/-- The flow after the next command. -/
def step (code : BytecodeStore) (f : Flow) : Flow :=
  perform { f with location := (f.fetch code).2.nextIndex } (f.fetch code).1

/-- From `f`, the flow runs through the commands of a list, to `g`. -/
inductive Runs (code : BytecodeStore) : Flow → List Command → Flow → Prop
  | refl (f : Flow) : Runs code f [] f
  | step {f g : Flow} {cs : List Command} (hended : f.ended = false)
      (hrest : Runs code (f.step code) cs g) : Runs code f ((f.fetch code).1 :: cs) g

variable {code : BytecodeStore}

theorem Runs.trans {f g h : Flow} {cs ds : List Command} (hfg : Runs code f cs g)
    (hgh : Runs code g ds h) : Runs code f (cs ++ ds) h := by
  induction hfg with
  | refl f => exact hgh
  | step hended _ ih => exact .step hended (ih hgh)

/-- One command. -/
theorem Runs.one {f : Flow} {c : Command} {s : BytecodeStore} (hended : f.ended = false)
    (hfetch : f.fetch code = (c, s)) :
    Runs code f [c] (perform { f with location := s.nextIndex } c) := by
  have hone := Runs.step hended (Runs.refl (f.step code))
  rwa [Flow.step, hfetch] at hone

/-- A run to the end goes on with the command that is fetched. -/
theorem Runs.exists_tail {f g : Flow} {cs : List Command} (h : Runs code f cs g)
    (hf : f.ended = false) (hg : g.ended = true) :
    ∃ ds, cs = (f.fetch code).1 :: ds ∧ Runs code (f.step code) ds g := by
  cases h with
  | refl => exact absurd hg (Bool.eq_false_iff.mp hf)
  | step _ hrest => exact ⟨_, rfl, hrest⟩

/-- After the end nothing is run through. -/
theorem Runs.eq_of_ended {f g : Flow} {cs : List Command} (h : Runs code f cs g)
    (hf : f.ended = true) : cs = [] ∧ f = g := by
  cases h with
  | refl => exact ⟨rfl, rfl⟩
  | step hended _ => exact absurd hf (Bool.eq_false_iff.mp hended)

end Flow

/-- Instructions do not affect the flow. -/
theorem Instruction.perform_command (i : Instruction) (f : Flow) :
    f.perform i.command = f := by
  cases i <;> rfl

/-! ### The flow through a program -/

/-- The code holds these bytes at this location. -/
def BytecodeStore.Holds (code : BytecodeStore) (location : ℕ) (bytes : List UInt8) : Prop :=
  (code.seek location).StandsAt bytes

namespace BytecodeStore.Holds

variable {code : BytecodeStore} {location : ℕ} {bytes rest : List UInt8}

theorem left (h : code.Holds location (bytes ++ rest)) : code.Holds location bytes :=
  StandsAt.left h

theorem right (h : code.Holds location (bytes ++ rest)) :
    code.Holds (location + bytes.length) rest := StandsAt.right h

end BytecodeStore.Holds

namespace Program

open Skybrush.Flow BytecodeStore

variable {code : BytecodeStore}

/-- The flow through an instruction. -/
theorem runs_instruction {i : Instruction} {location : ℕ} {loops : OpenLoops}
    (h : code.Holds location i.bytes) :
    Runs code ⟨location, loops, false⟩ [i.command]
      ⟨location + i.bytes.length, loops, false⟩ := by
  have hrun := Runs.one (f := ⟨location, loops, false⟩) rfl (fetch_instruction h)
  rw [i.perform_command] at hrun
  exact hrun

/-- The flow into a loop, with room for one more. -/
theorem runs_loopBegin {n : UInt8} {location : ℕ} {loops : OpenLoops}
    (h : code.Holds location [CommandCode.loopBegin.toByte, n])
    (hroom : loops.length < maxLoopDepth) :
    Runs code ⟨location, loops, false⟩ [.loopBegin n]
      ⟨location + 2, ⟨location + 2, n⟩ :: loops, false⟩ := by
  have hfetch : (code.seek location).fetch = (.loopBegin n, (code.seek location).skip 2) := by
    rw [StandsAt.fetch h, fetchArguments, (StandsAt.tail h).next, skip_skip]
  have hrun := Runs.one (f := ⟨location, loops, false⟩) rfl hfetch
  rw [perform_loopBegin, OpenLoops.begin, if_pos (Nat.lt_succ_of_lt hroom)] at hrun
  exact hrun

/-- The flow at the end of a loop body, with iterations left. -/
theorem runs_loopEnd_again {n : UInt8} {start location : ℕ} {loops : OpenLoops}
    (h : code.Holds location [CommandCode.loopEnd.toByte]) (hzero : n ≠ 0) (hone : n ≠ 1) :
    Runs code ⟨location, ⟨start, n⟩ :: loops, false⟩ [.loopEnd]
      ⟨start, ⟨start, n - 1⟩ :: loops, false⟩ := by
  have hrun := Runs.one (f := ⟨location, ⟨start, n⟩ :: loops, false⟩) rfl (StandsAt.fetch h)
  rw [perform_loopEnd, OpenLoops.end_, if_neg hzero, if_neg hone] at hrun
  exact hrun

/-- The flow at the end of a loop body, in the last iteration. -/
theorem runs_loopEnd_last {start location : ℕ} {loops : OpenLoops}
    (h : code.Holds location [CommandCode.loopEnd.toByte]) :
    Runs code ⟨location, ⟨start, 1⟩ :: loops, false⟩ [.loopEnd]
      ⟨location + 1, loops, false⟩ := by
  have hrun := Runs.one (f := ⟨location, ⟨start, 1⟩ :: loops, false⟩) rfl (StandsAt.fetch h)
  rw [perform_loopEnd, OpenLoops.end_, if_neg (show (1 : UInt8) ≠ 0 by decide), if_pos rfl] at hrun
  exact hrun

/-- **The iterations of a loop**, by induction on the counter of its item: the body is run
through as often as the counter says, and then the loop is not open any more. -/
theorem runs_iterations {body : List Command} {start stop : ℕ} {loops : OpenLoops}
    (hbody : ∀ n : UInt8, Runs code ⟨start, ⟨start, n⟩ :: loops, false⟩ body
      ⟨stop, ⟨start, n⟩ :: loops, false⟩)
    (hend : code.Holds stop [CommandCode.loopEnd.toByte]) {k : ℕ} :
    ∀ {n : UInt8}, n.toNat = k + 1 →
      Runs code ⟨start, ⟨start, n⟩ :: loops, false⟩
        (List.replicate (k + 1) (body ++ [Command.loopEnd])).flatten
        ⟨stop + 1, loops, false⟩ := by
  induction k with
  | zero =>
      intro n hn
      obtain rfl : n = 1 := UInt8.toNat_inj.mp hn
      have hlast := (hbody 1).trans (runs_loopEnd_last hend)
      rwa [List.replicate_one, List.flatten_singleton]
  | succ k ih =>
      intro n hn
      have hzero : n ≠ 0 := by
        rintro rfl
        simp at hn
      have hone : n ≠ 1 := by
        rintro rfl
        simp at hn
      have hsub : (n - 1).toNat = k + 1 := by
        have hle : (1 : UInt8) ≤ n := by
          rw [UInt8.le_iff_toNat_le, hn]
          exact Nat.succ_le_succ (Nat.zero_le _)
        rw [UInt8.toNat_sub_of_le _ _ hle, hn]
        rfl
      rw [List.replicate_succ, List.flatten_cons]
      exact ((hbody n).trans (runs_loopEnd_again hend hzero hone)).trans (ih hsub)

/-- **Where a program stands**, the flow runs through its trace, and stands behind it with
the same loops open, provided that its loops fit on the stack. -/
theorem runs {p : Program} {location : ℕ} {loops : OpenLoops}
    (h : code.Holds location p.bytes) (hroom : loops.length + p.depth ≤ maxLoopDepth) :
    Runs code ⟨location, loops, false⟩ p.trace
      ⟨location + p.bytes.length, loops, false⟩ := by
  induction p generalizing location loops with
  | nil => exact .refl _
  | instruction i rest ih =>
      have hrest := ih h.right hroom
      have hrun := (runs_instruction h.left).trans hrest
      rwa [bytes, List.length_append, ← Nat.add_assoc]
  | loop n body rest ihbody ihrest =>
      rw [depth] at hroom
      have hopen : loops.length < maxLoopDepth := by omega
      have hbytes : (loop n body rest).bytes =
          [CommandCode.loopBegin.toByte, n.val] ++ (body.bytes ++
            ([CommandCode.loopEnd.toByte] ++ rest.bytes)) := rfl
      rw [hbytes] at h ⊢
      obtain ⟨k, hk⟩ : ∃ k, n.val.toNat = k + 1 := by
        have hpos : n.val.toNat ≠ 0 := fun hz => n.property (UInt8.toNat_inj.mp hz)
        exact Nat.exists_eq_succ_of_ne_zero hpos
      have hbody : ∀ m : UInt8,
          Runs code ⟨location + 2, ⟨location + 2, m⟩ :: loops, false⟩ body.trace
            ⟨location + 2 + body.bytes.length, ⟨location + 2, m⟩ :: loops, false⟩ := by
        intro m
        exact ihbody h.right.left (by rw [List.length_cons]; omega)
      have hiter := runs_iterations hbody h.right.right.left hk
      have hrest := @ihrest _ loops h.right.right.right (by omega)
      have hstop : location + ([CommandCode.loopBegin.toByte, n.val] ++ (body.bytes ++
          ([CommandCode.loopEnd.toByte] ++ rest.bytes))).length =
            location + 2 + body.bytes.length + 1 + rest.bytes.length := by
        simp only [List.length_append, List.length_cons, List.length_nil]
        omega
      rw [hstop, trace, hk]
      exact ((runs_loopBegin h.left hopen).trans hiter).trans hrest

end Program

end Skybrush
