import Skybrush.Dispatch

/-!
# The Loop Stack under the Executor

Whatever is done with an executor, its loop stack only goes through the operations of
`LoopOp`: a step does at most one of them, rewinding clears the stack. `ExecutorOp` are
the calls that can be made on an executor and `Executor.loopOps` the loop operations that
a sequence of calls does, so what was proved about sequences of loop operations carries
over to everything that an executor does with any bytecode.

## Main results

* `Executor.loopStack_step`: a step does the loop operation of the command it executes.
* `Executor.loopStack_run`: the loop stack after a run is the constructed one after the
  loop operations of the run.
* `loopStack_bounded_iff_neverOverfull`: the stack is a bounded stack of four loops, for
  the calls made on it and for every executor, exactly as long as no loop is begun while
  four are open.
-/

namespace Skybrush

namespace Executor

variable (F : Rounding)

/-- The operation of the loop stack that a command does, where `location` is the location
behind it. -/
def loopOp (location : ℕ) : Command → List LoopOp
  | .loopBegin iterations => [.begin location iterations]
  | .loopEnd => [.end_]
  | .jump address => if isAddressValid address.toNat then [.clear] else []
  | _ => []

theorem loopOp_jump (location : ℕ) (address : UInt64) :
    loopOp location (.jump address) = if isAddressValid address.toNat then [.clear] else [] := rfl

theorem loopOp_loopEnd (location : ℕ) : loopOp location .loopEnd = [.end_] := rfl

/-- The operation of the loop stack that a step does. -/
def stepLoopOps (signals : Signals) (e : Executor) (now : ℕ) : List LoopOp :=
  if (e.handleResetClockFlag F now).ended then
    []
  else if (e.prepare F signals now).nextWakeupTime ≤ now then
    match (e.prepare F signals now).store with
    | some s => loopOp s.fetch.2.nextIndex s.fetch.1
    | none => []
  else
    []

/-- A command does its loop operation and leaves the loop stack alone otherwise. -/
theorem loopStack_perform (signals : Signals) (e : Executor) (s : BytecodeStore) (c : Command) :
    ((e.withStore s).perform F signals c).loopStack =
      (e.loopStack.run (loopOp s.nextIndex c)).2 := by
  cases c with
  | jump address =>
      simp only [perform, jumpTo, loopOp_jump]
      split <;> rfl
  | loopEnd =>
      simp only [perform, handleLoopEndCommand, loopOp_loopEnd, LoopStack.run, LoopStack.apply]
      split <;> rfl
  | setColorFromChannels channels duration | fadeToColorFromChannels channels duration =>
      obtain ⟨error, hframe⟩ := colorFromChannels_frame signals (e.withStore s) channels
      simp only [perform, hframe]
      rfl
  | triggeredJump triggerParams address =>
      obtain ⟨triggers, ended, error, hframe⟩ := setUpTrigger_frame signals (e.withStore s)
        triggerParams address.toNat
      rw [perform, hframe]
      rfl
  | _ => rfl

/-- Preparing a step leaves the loop stack alone. -/
theorem loopStack_prepare (signals : Signals) (e : Executor) (now : ℕ) :
    (e.prepare F signals now).loopStack = e.loopStack := by
  have hflag : (e.handleResetClockFlag F now).loopStack = e.loopStack := by
    simp only [handleResetClockFlag]
    split <;> rfl
  obtain ⟨store, triggers, color, transition, handler, hframe⟩ := prepare_frame F signals e now
  rw [hframe]
  exact hflag

/-- **A step** does the loop operation of the command it executes. -/
theorem loopStack_step (signals : Signals) (e : Executor) (now : ℕ) :
    (e.step F signals now).loopStack = (e.loopStack.run (e.stepLoopOps F signals now)).2 := by
  have hprep := loopStack_prepare F signals e now
  have hcase := step_cases F signals e now
  generalize e.step F signals now = e' at hcase ⊢
  rw [stepLoopOps]
  cases hcase with
  | ended hended =>
      rw [if_pos hended]
      simp only [handleResetClockFlag]
      split <;> rfl
  | idle hended hdue =>
      rw [if_neg (by simp [hended]), if_neg hdue]
      exact hprep
  | noStore hended hdue hstore =>
      rw [if_neg (by simp [hended]), if_pos hdue, hstore]
      exact hprep
  | perform s hended hdue hstore =>
      rw [if_neg (by simp [hended]), if_pos hdue, hstore, loopStack_perform, hprep]

/-! ### Runs of calls on an executor -/

end Executor

/-- A call on an executor. A step comes with what the signal sources show during it. -/
inductive ExecutorOp where
  | setBytecodeStore (s : Option BytecodeStore)
  | setSignalSource (source : SignalSourcePtr)
  | setClockSkewCompensationFactor (value : ℚ)
  | rewind
  | stop
  | step (signals : Signals) (now : ℕ)

namespace Executor

variable (F : Rounding)

/-- One call on an executor. -/
def apply (e : Executor) : ExecutorOp → Executor
  | .setBytecodeStore s => e.setBytecodeStore s
  | .setSignalSource source => e.setSignalSource source
  | .setClockSkewCompensationFactor value => { e with clockSkewCompensationFactor := value }
  | .rewind => e.rewind
  | .stop => e.stop
  | .step signals now => e.step F signals now

/-- A sequence of calls on an executor. -/
def run (e : Executor) (ops : List ExecutorOp) : Executor := ops.foldl (apply F) e

/-- The loop operations of one call. -/
def applyLoopOps (e : Executor) : ExecutorOp → List LoopOp
  | .setBytecodeStore _ => [.clear]
  | .rewind => [.clear]
  | .step signals now => e.stepLoopOps F signals now
  | _ => []

/-- The loop operations of a sequence of calls. -/
def loopOps (e : Executor) : List ExecutorOp → List LoopOp
  | [] => []
  | op :: ops => e.applyLoopOps F op ++ (e.apply F op).loopOps ops

/-- Rewinding clears the loop stack. -/
theorem loopStack_rewind (e : Executor) : e.rewind.loopStack = e.loopStack.clear := by
  simp only [rewind]
  split <;> rfl

/-- One call does its loop operations. -/
theorem loopStack_apply (e : Executor) (op : ExecutorOp) :
    (e.apply F op).loopStack = (e.loopStack.run (e.applyLoopOps F op)).2 := by
  cases op with
  | setBytecodeStore s => exact loopStack_rewind _
  | rewind => exact loopStack_rewind e
  | step signals now => exact loopStack_step F signals e now
  | _ => rfl

end Executor

/-- A sequence of loop operations in two parts. -/
theorem LoopStack.run_append (s : LoopStack) (ops ops' : List LoopOp) :
    (s.run (ops ++ ops')).2 = ((s.run ops).2.run ops').2 := by
  induction ops generalizing s with
  | nil => rfl
  | cons op ops ih => exact ih _

namespace Executor

variable (F : Rounding)

/-- A run does the loop operations of its calls. -/
theorem loopStack_run_of (e : Executor) (ops : List ExecutorOp) :
    (e.run F ops).loopStack = (e.loopStack.run (e.loopOps F ops)).2 := by
  induction ops generalizing e with
  | nil => rfl
  | cons op ops ih =>
      rw [loopOps, LoopStack.run_append, ← loopStack_apply]
      exact ih _

/-- **Runs.** The loop stack after a run is the empty one after its loop operations. -/
theorem loopStack_run (memory : UninitMemory) (ops : List ExecutorOp) :
    ((construct memory).run F ops).loopStack =
      (LoopStack.empty.run ((construct memory).loopOps F ops)).2 :=
  loopStack_run_of F (construct memory) ops

end Executor

/-! ### The bounded stack -/

/-- After the calls, the stack has behaved as a stack of at most four loops, and has stayed
inside its array. -/
structure LoopStack.BoundedAfter (ops : List LoopOp) : Prop where
  results : (LoopStack.empty.run ops).1 = (OpenLoops.run maxLoopDepth [] ops).1
  size : (LoopStack.empty.run ops).2.size.toNat = (OpenLoops.run maxLoopDepth [] ops).2.length
  size_le : (LoopStack.empty.run ops).2.size.toNat ≤ maxLoopDepth
  inside : (LoopStack.empty.run ops).2.Inside

/-- Never overfull is a property of every prefix of the calls. -/
theorem OpenLoops.NeverOverfull.of_append {l : OpenLoops} {ops ops' : List LoopOp}
    (h : l.NeverOverfull (ops ++ ops')) : l.NeverOverfull ops := by
  induction ops generalizing l with
  | nil => trivial
  | cons op ops ih => exact ⟨h.1, ih h.2⟩

/-- Calls that never overfill the stack leave it a bounded one. -/
theorem LoopStack.boundedAfter_of_neverOverfull {ops : List LoopOp}
    (h : OpenLoops.NeverOverfull [] ops) : LoopStack.BoundedAfter ops := by
  obtain ⟨hres, hagr⟩ := (agrees_empty.run ops).2 h
  have hsize := hagr.bounded.size_eq
  rw [hagr.loops] at hsize
  exact ⟨hres, hsize, hsize ▸ hagr.length_le, hagr.inside⟩

/-- **The loop stack is a bounded stack of four loops exactly as long as no loop is begun
while four are open**: after every prefix of the calls for the stack itself, and for
the stack of an executor, whatever is done with it and whatever bytecode it runs. -/
theorem loopStack_bounded_iff_neverOverfull (ops : List LoopOp) (F : Rounding)
    (memory : UninitMemory) (calls : List ExecutorOp) :
    ((∀ pre, pre <+: ops → LoopStack.BoundedAfter pre) ↔ OpenLoops.NeverOverfull [] ops) ∧
    (((Executor.construct memory).run F calls).loopStack.Inside ↔
      OpenLoops.NeverOverfull [] ((Executor.construct memory).loopOps F calls)) := by
  refine ⟨⟨fun h => ?_, ?_⟩, ?_⟩
  · exact (LoopStack.agrees_empty.run ops).1.mp (h ops (List.prefix_refl ops)).inside
  · rintro h pre ⟨post, rfl⟩
    exact LoopStack.boundedAfter_of_neverOverfull h.of_append
  · rw [Executor.loopStack_run]
    exact (LoopStack.agrees_empty.run _).1

/-- Five loops begun in a row: the fifth call succeeds, and writes behind the array. -/
theorem fifth_begin_overflows :
    ¬ LoopStack.BoundedAfter (List.replicate 5 (.begin 2 1)) ∧
      ¬ ((Executor.construct .zero).run Rounding.exact
        (.setBytecodeStore (some (.ofArray (List.replicate 10 0x0C))) ::
          List.replicate 5 (.step .silent 0))).loopStack.Inside := by
  constructor
  · rintro ⟨-, -, -, hin⟩
    exact absurd (hin 4 (by decide)) (by decide)
  · intro hin
    exact absurd (hin 4 (by decide +kernel)) (by decide)

end Skybrush
