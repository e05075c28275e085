import Skybrush.LightMachine
import Skybrush.LoopStackSafety
import Skybrush.StructuredProgram

/-!
# Structured Programs on the Executor

What an executor executes when it is given the code of a structured program. An executor
without active triggers represents a `Flow`; a step executes the next command of the flow,
when one is due, and nothing otherwise, whatever the clocks, the signals and the clock skew
are. A run of steps therefore executes a prefix of the trace of the program, and goes on
with every step at which a command is due.

## Main results

* `Executor.Untriggered.step`: a step of an executor is a step of its flow, or none.
* `Executor.Untriggered.steps`: steps execute a prefix of what the flow runs through.
* `structuredCode_executed`: the executor executes the unrolled program, reaches its end,
  and leaves no loop open there.
-/

namespace Skybrush

namespace Executor

/-- The flow that an executor represents. -/
def flow (e : Executor) : Flow := ⟨e.location, e.loopStack.openLoops, e.ended⟩

/-- A command would be due at time `now`. -/
def Due (e : Executor) (now : ℕ) : Prop := e.resetClockFlag = true ∨ e.nextWakeupTime ≤ now

instance (e : Executor) (now : ℕ) : Decidable (e.Due now) :=
  inferInstanceAs (Decidable (_ ∨ _))

variable {code : BytecodeStore} (F : Rounding) (signals : Signals)

/-! ### One step -/

/-- The part of a step before its command does not affect the flow. -/
theorem Untriggered.prepare {e : Executor} (h : e.Untriggered code) (now : ℕ) :
    (e.prepare F signals now).Untriggered code ∧ (e.prepare F signals now).flow = e.flow ∧
      ((e.prepare F signals now).nextWakeupTime ≤ now ↔ e.Due now) := by
  have hreset : (e.handleResetClockFlag F now).Untriggered code ∧
      (e.handleResetClockFlag F now).flow = e.flow ∧
      ((e.handleResetClockFlag F now).nextWakeupTime ≤ now ↔ e.Due now) := by
    rw [handleResetClockFlag, Due]
    cases hflag : e.resetClockFlag with
    | true => exact ⟨h.congr rfl rfl, rfl, by simp⟩
    | false => exact ⟨h, rfl, by simp⟩
  obtain ⟨huntrig, hflow, hdue⟩ := hreset
  rw [Executor.prepare, huntrig.checkAndFireTriggers]
  generalize e.handleResetClockFlag F now = e' at huntrig hflow hdue ⊢
  obtain ⟨color, transition, handler, hframe⟩ := handleActiveTransition_frame F e' now
  rw [hframe]
  exact ⟨huntrig.congr rfl rfl, hflow, hdue⟩

/-- A command that does not jump performs its effect on the flow. -/
theorem Untriggered.perform {e : Executor} (h : e.Untriggered code) {c : Command}
    (hc : c.isJump = false) :
    (e.perform F signals c).Untriggered code ∧
      (e.perform F signals c).flow = e.flow.perform c := by
  obtain ⟨s, hs, -⟩ := h.store
  cases c with
  | jump address => cases hc
  | triggeredJump triggerParams address => cases hc
  | loopBegin iterations =>
      have hbegin := congrArg Prod.snd (LoopStack.openLoops_begin e.loopStack s.nextIndex
        iterations)
      simp only [Executor.perform, beginLoop, hs, Option.bind_some, BytecodeStore.tell]
      refine ⟨h.congr hs.symm rfl, ?_⟩
      simp only [flow, Flow.perform_loopBegin, location, hs, ← hbegin]
  | loopEnd =>
      have hend := LoopStack.openLoops_end_ e.loopStack
      have hfst := congrArg Prod.fst hend
      have hsnd := congrArg Prod.snd hend
      simp only at hfst hsnd
      have hstack : ({ e with loopStack := e.loopStack.end_.2 } : Executor).Untriggered code :=
        h.congr rfl rfl
      simp only [Executor.perform, handleLoopEndCommand, Flow.perform_loopEnd]
      cases hjump : e.loopStack.end_.1 with
      | none =>
          rw [hjump] at hfst
          refine ⟨hstack, ?_⟩
          simp only [flow, location, ← hfst, ← hsnd, Option.getD_none]
      | some target =>
          rw [hjump] at hfst
          refine ⟨hstack.seekStore target, ?_⟩
          simp only [flow, location, Executor.seekStore, hs, ← hfst, ← hsnd, Option.getD_some,
            Option.map_some, BytecodeStore.seek]
  | setColorFromChannels channels duration | fadeToColorFromChannels channels duration =>
      obtain ⟨error, hframe⟩ := colorFromChannels_frame signals e channels
      simp only [Executor.perform, hframe]
      exact ⟨h.congr rfl rfl, rfl⟩
  | _ => exact ⟨h.congr rfl rfl, rfl⟩

/-- **A step.** When a command is due, the step executes the next one of the flow;
otherwise it executes nothing, and the flow stays where it is. -/
theorem Untriggered.step {e : Executor} (h : e.Untriggered code)
    (hjump : e.ended = false → (e.flow.fetch code).1.isJump = false) (now : ℕ) :
    (e.step F signals now).Untriggered code ∧
      if e.ended = false ∧ e.Due now then
        e.executes F signals now = some (e.flow.fetch code).1 ∧
          (e.step F signals now).flow = e.flow.step code
      else
        e.executes F signals now = none ∧ (e.step F signals now).flow = e.flow := by
  obtain ⟨huntrig, hflow, hdueiff⟩ := h.prepare F signals now
  have hended_eq : (e.handleResetClockFlag F now).ended = e.ended := by
    rw [← prepare_ended F signals e now]
    exact congrArg Flow.ended hflow
  have hcase := step_cases F signals e now
  generalize e.step F signals now = e' at hcase ⊢
  cases hcase with
  | ended hended =>
      have hnot : ¬ (e.ended = false ∧ e.Due now) := by
        rintro ⟨hrunning, -⟩
        exact absurd (hended_eq ▸ hended) (Bool.eq_false_iff.mp hrunning)
      rw [executes_of_ended F signals hended, if_neg hnot]
      have hframe : (e.handleResetClockFlag F now).Untriggered code ∧
          (e.handleResetClockFlag F now).flow = e.flow := by
        rw [handleResetClockFlag]
        split
        · exact ⟨h.congr rfl rfl, rfl⟩
        · exact ⟨h, rfl⟩
      have hwait : ∀ (e' : Executor) (wakeup : ℕ),
          ({ e' with nextWakeupTime := wakeup } : Executor).flow = e'.flow := fun _ _ => rfl
      exact ⟨hframe.1.congr rfl rfl, rfl, (hwait _ _).trans hframe.2⟩
  | idle hended hdue =>
      have hnot : ¬ (e.ended = false ∧ e.Due now) := fun hrun => hdue (hdueiff.mpr hrun.2)
      rw [executes_of_not_due F signals hdue, if_neg hnot]
      exact ⟨huntrig.congr rfl rfl, rfl, hflow⟩
  | noStore hended hdue hnone => exact absurd (hnone.symm.trans huntrig.store_eq) (by simp)
  | perform s hended hdue hsome =>
      have hloc : (e.prepare F signals now).location = e.flow.location :=
        congrArg Flow.location hflow
      have hs : s = code.seek e.flow.location :=
        hloc ▸ Option.some.inj (hsome.symm.trans huntrig.store_eq)
      have hfetch : s.fetch = e.flow.fetch code := by rw [hs, Flow.fetch]
      have hcode : code.SameCode s := hs ▸ (BytecodeStore.SameCode.refl code).seek _
      have hready := huntrig.withStore (hcode.trans (BytecodeStore.advances_fetch s).sameCode)
      have hrunning : e.ended = false := hended_eq ▸ hended
      rw [hfetch] at hready ⊢
      obtain ⟨hkeep, heffect⟩ := hready.perform F signals (hjump hrunning)
      rw [executes_of_due F signals hended hdue hsome,
        if_pos (And.intro hrunning (hdueiff.mp hdue)), hfetch]
      refine ⟨hkeep, rfl, ?_⟩
      have hmove : ((e.prepare F signals now).withStore (e.flow.fetch code).2).flow =
          { e.flow with location := (e.flow.fetch code).2.nextIndex } := by
        rw [← hflow]
        rfl
      rw [heffect, hmove, Flow.step]

/-! ### Runs of steps -/

/-- A sequence of steps, each with what the signal sources show during it and with the time
of the host. -/
def steps (e : Executor) (calls : List (Signals × ℕ)) : Executor :=
  calls.foldl (fun e call => e.step F call.1 call.2) e

/-- The commands that a sequence of steps executes. -/
def executed (e : Executor) : List (Signals × ℕ) → List Command
  | [] => []
  | (signals, now) :: calls =>
      (e.executes F signals now).toList ++ (e.step F signals now).executed calls

/-- The number of steps at which a command would be due. -/
def numDue (e : Executor) : List (Signals × ℕ) → ℕ
  | [] => 0
  | (signals, now) :: calls =>
      (if e.Due now then 1 else 0) + (e.step F signals now).numDue calls

/-- **Steps.** When the flow runs through a list of commands that do not jump, and ends,
then steps execute a prefix of the list and leave the flow to run through the rest; and
unless the flow has ended, each step at which a command would be due executes one. -/
theorem Untriggered.steps {e : Executor} (h : e.Untriggered code) {cs : List Command} {g : Flow}
    (hruns : e.flow.Runs code cs g) (hended : g.ended = true)
    (hjump : ∀ c ∈ cs, c.isJump = false) (calls : List (Signals × ℕ)) :
    (∃ rest, e.executed F calls ++ rest = cs ∧ (e.steps F calls).flow.Runs code rest g) ∧
      ((e.steps F calls).ended = false → e.numDue F calls ≤ (e.executed F calls).length) := by
  induction calls generalizing e cs with
  | nil => exact ⟨⟨cs, rfl, hruns⟩, fun _ => le_rfl⟩
  | cons call calls ih =>
      obtain ⟨signals, now⟩ := call
      have hnext : e.ended = false → (e.flow.fetch code).1.isJump = false := by
        intro hrunning
        obtain ⟨ds, rfl, -⟩ := hruns.exists_tail hrunning hended
        exact hjump _ List.mem_cons_self
      obtain ⟨huntrig, hstep⟩ := h.step F signals hnext now
      simp only [executed, numDue]
      by_cases hrun : e.ended = false ∧ e.Due now
      · -- the step executes the first command of the list
        rw [if_pos hrun] at hstep
        obtain ⟨hexec, hflow⟩ := hstep
        obtain ⟨ds, rfl, hrest⟩ := hruns.exists_tail hrun.1 hended
        obtain ⟨⟨rest, happ, htail⟩, hdue⟩ := ih huntrig (hflow ▸ hrest)
          fun c hc => hjump c (List.mem_cons_of_mem _ hc)
        rw [hexec, if_pos hrun.2, Option.toList_some, List.singleton_append, List.length_cons]
        refine ⟨⟨rest, by rw [List.cons_append, happ], htail⟩, fun hrunning => ?_⟩
        have := hdue hrunning
        omega
      · rw [if_neg hrun] at hstep
        obtain ⟨hexec, hflow⟩ := hstep
        obtain ⟨⟨rest, happ, htail⟩, hdue⟩ := ih huntrig (hflow ▸ hruns) hjump
        rw [hexec, Option.toList_none, List.nil_append]
        refine ⟨⟨rest, happ, htail⟩, fun hrunning => ?_⟩
        by_cases hnow : e.Due now
        · -- a due command is only left out after the end, which steps do not undo
          have hstopped : e.flow.ended = true := by
            rw [← Bool.not_eq_false]
            exact fun hrunning => hrun ⟨hrunning, hnow⟩
          obtain ⟨rfl, rfl⟩ := hruns.eq_of_ended hstopped
          obtain ⟨-, rfl⟩ := List.append_eq_nil_iff.mp happ
          obtain ⟨ds, hnil, -⟩ := htail.exists_tail hrunning hstopped
          cases hnil
        · rw [if_neg hnow, Nat.zero_add]
          exact hdue hrunning

end Executor

/-! ### The code of a structured program -/

/-- The code of a structured program: at most four loops are nested, the code ends behind
the program or goes on with an end marker, and its length fits into 16 bits. -/
structure StructuredCode where
  program : Program
  tail : List UInt8
  depth_le : program.depth ≤ maxLoopDepth
  tail_end : tail = [] ∨ tail.head? = some cmdEnd
  length_le : (program.bytes ++ tail).length ≤ 65535

namespace StructuredCode

/-- The bytes of the code. -/
def bytes (p : StructuredCode) : List UInt8 := p.program.bytes ++ p.tail

/-- The store over the code. -/
def store (p : StructuredCode) : BytecodeStore := .ofArray p.bytes

/-- The commands that the executor has to execute, with those that begin and end the loops.
Nothing is executed from an empty store. -/
def trace (p : StructuredCode) : List Command :=
  if p.bytes = [] then [] else p.program.trace ++ [.end_]

/-- The commands of the program with every loop body written out, and the end marker. -/
def unrolled (p : StructuredCode) : List Command :=
  if p.bytes = [] then [] else p.program.unrolled ++ [.end_]

/-- An executor that was given the code, and before that a signal source and a clock skew
compensation factor. -/
def load (p : StructuredCode) (F : Rounding) (memory : UninitMemory) (source : SignalSourcePtr)
    (skew : ℚ) : Executor :=
  (Executor.construct memory).run F
    [.setSignalSource source, .setClockSkewCompensationFactor skew,
      .setBytecodeStore (some p.store)]

/-- Without the loop commands, the trace is the unrolled program. -/
theorem filter_trace (p : StructuredCode) :
    p.trace.filter (fun c => !c.isLoop) = p.unrolled := by
  rw [trace, unrolled]
  split
  · rfl
  · rw [List.filter_append, Program.filter_trace]
    rfl

theorem isJump_of_mem_trace {p : StructuredCode} {c : Command} (hc : c ∈ p.trace) :
    c.isJump = false := by
  rw [trace] at hc
  split at hc
  · cases hc
  · rcases List.mem_append.mp hc with hc | hc
    · exact Program.isJump_of_mem_trace hc
    · rw [List.mem_singleton.mp hc]
      rfl

/-- What is left of the trace ends with the end marker. -/
theorem end_mem_of_append {p : StructuredCode} {done rest : List Command}
    (h : done ++ rest = p.trace) (hrest : rest ≠ []) : Command.end_ ∈ rest := by
  have hlast : rest.getLast? = p.trace.getLast? := by
    rw [← h, List.getLast?_append_of_ne_nil _ hrest]
  rw [trace] at h hlast
  split at h
  · exact absurd (List.append_eq_nil_iff.mp h).2 hrest
  case isFalse hne =>
    rw [if_neg hne, List.getLast?_append_of_ne_nil _ (by simp)] at hlast
    exact List.mem_of_getLast? hlast

theorem length_trace_le (p : StructuredCode) :
    p.trace.length ≤ p.program.trace.length + 1 := by
  rw [trace]
  split
  · exact Nat.zero_le _
  · rw [List.length_append, List.length_singleton]

theorem size_store (p : StructuredCode) : p.store.size = p.bytes.length :=
  Nat.mod_eq_of_lt (Nat.lt_of_le_of_lt p.length_le (by decide))

theorem holds_program (p : StructuredCode) : p.store.Holds 0 p.program.bytes := by
  refine ⟨rfl, ?_, ?_⟩
  · change 0 + p.program.bytes.length ≤ p.store.size
    rw [p.size_store, bytes, List.length_append]
    omega
  · exact List.prefix_append _ _

/-- Behind the program the code ends, or an end marker stands. -/
theorem fetch_end (p : StructuredCode) :
    ((p.store.seek p.program.bytes.length).fetch).1 = .end_ := by
  rcases p.tail_end with htail | htail
  · have hsize : p.store.size = p.program.bytes.length := by
      rw [p.size_store, bytes, htail, List.append_nil]
    rw [BytecodeStore.fetch_of_size_le rfl]
    exact hsize.le
  · obtain ⟨rest, hrest⟩ := List.head?_eq_some_iff.mp htail
    have hstands : (p.store.seek p.program.bytes.length).StandsAt
        (CommandCode.end_.toByte :: rest) := by
      refine ⟨rfl, ?_, ?_⟩
      · change p.program.bytes.length + (cmdEnd :: rest).length ≤ p.store.size
        rw [p.size_store, bytes, List.length_append, hrest]
      · change cmdEnd :: rest <+: p.bytes.drop p.program.bytes.length
        rw [bytes, List.drop_left, hrest]
    rw [hstands.fetch]
    rfl

/-- **The flow** of a structured program runs through its trace and ends, with no loop open. -/
theorem runs (p : StructuredCode) :
    ∃ g : Flow, Flow.Runs p.store ⟨0, [], p.store.isEmpty⟩ p.trace g ∧ g.loops = [] ∧
      g.ended = true := by
  have hempty : p.store.isEmpty = decide (p.bytes = []) := by
    rw [BytecodeStore.isEmpty, p.size_store]
    exact decide_eq_decide.mpr List.length_eq_zero_iff
  rw [trace]
  by_cases hnil : p.bytes = []
  · rw [if_pos hnil, hempty, decide_eq_true hnil]
    exact ⟨_, .refl _, rfl, rfl⟩
  · rw [if_neg hnil, hempty, decide_eq_false hnil]
    have hrun := @Program.runs _ _ _ [] p.holds_program (by simpa using p.depth_le)
    rw [Nat.zero_add] at hrun
    obtain ⟨s, hs⟩ : ∃ s, (p.store.seek p.program.bytes.length).fetch = (.end_, s) :=
      ⟨_, Prod.ext p.fetch_end rfl⟩
    exact ⟨_, hrun.trans (.one rfl hs), rfl, rfl⟩

/-- The executor stands at the start of the code, with no trigger active. -/
theorem load_eq (p : StructuredCode) (F : Rounding) (memory : UninitMemory)
    (source : SignalSourcePtr) (skew : ℚ) :
    (p.load F memory source skew).Untriggered p.store ∧
      (p.load F memory source skew).flow = ⟨0, [], p.store.isEmpty⟩ :=
  ⟨⟨⟨p.store, rfl, .refl _⟩, fun _ => rfl⟩, rfl⟩

end StructuredCode

/-- There is always a time at which a command would be due. -/
theorem Executor.exists_numDue (F : Rounding) (e : Executor) (n : ℕ) :
    ∃ calls, n ≤ e.numDue F calls := by
  induction n generalizing e with
  | zero => exact ⟨[], le_rfl⟩
  | succ n ih =>
      obtain ⟨calls, hcalls⟩ := ih (e.step F .silent e.nextWakeupTime)
      have hdue : e.Due e.nextWakeupTime := Or.inr le_rfl
      refine ⟨(.silent, e.nextWakeupTime) :: calls, ?_⟩
      rw [numDue, if_pos hdue]
      omega

/-- **Structured programs are executed as written.** Whatever the executor is loaded with and
whenever it is called: the commands that it executes, without those that begin and end
loops, are the first commands of the unrolled program; they are all of them exactly when
the executor has ended, and then no loop is open; and the end is reached after as many
calls at which a command is due as the program runs through commands. -/
theorem structuredCode_executed (F : Rounding) (memory : UninitMemory)
    (source : SignalSourcePtr) (skew : ℚ) (p : StructuredCode) :
    (∀ calls,
      ((p.load F memory source skew).executed F calls).filter (fun c => !c.isLoop) <+:
          p.unrolled ∧
        (((p.load F memory source skew).steps F calls).ended = true ↔
          ((p.load F memory source skew).executed F calls).filter (fun c => !c.isLoop) =
            p.unrolled) ∧
        (((p.load F memory source skew).steps F calls).ended = true →
          ((p.load F memory source skew).steps F calls).loopStack.openLoops = []) ∧
        (p.program.trace.length + 1 ≤ (p.load F memory source skew).numDue F calls →
          ((p.load F memory source skew).steps F calls).ended = true)) ∧
    ∃ calls, ((p.load F memory source skew).steps F calls).ended = true := by
  obtain ⟨huntrig, hflow⟩ := p.load_eq F memory source skew
  generalize p.load F memory source skew = e at huntrig hflow ⊢
  obtain ⟨g, hruns, hloops, hended⟩ := p.runs
  have hsteps := huntrig.steps F (hflow ▸ hruns) hended fun _ => StructuredCode.isJump_of_mem_trace
  have hreach : ∀ calls, p.program.trace.length + 1 ≤ e.numDue F calls →
      (e.steps F calls).ended = true := by
    intro calls hdue
    obtain ⟨⟨rest, happ, htail⟩, hcount⟩ := hsteps calls
    rw [← Bool.not_eq_false]
    intro hrunning
    obtain ⟨ds, rfl, -⟩ := htail.exists_tail hrunning hended
    have hlen := congrArg List.length happ
    rw [List.length_append, List.length_cons] at hlen
    have := p.length_trace_le
    have := hcount hrunning
    omega
  refine ⟨fun calls => ?_, ?_⟩
  · obtain ⟨⟨rest, happ, htail⟩, -⟩ := hsteps calls
    have hfilter := congrArg (List.filter fun c => !c.isLoop) happ
    rw [List.filter_append, p.filter_trace] at hfilter
    refine ⟨⟨_, hfilter⟩, ⟨fun hover => ?_, fun hall => ?_⟩, fun hover => ?_, hreach calls⟩
    · obtain ⟨rfl, -⟩ := htail.eq_of_ended hover
      rwa [List.filter_nil, List.append_nil] at hfilter
    · -- while the executor runs, the end marker is still to come
      rw [← Bool.not_eq_false]
      intro hrunning
      obtain ⟨ds, hds, -⟩ := htail.exists_tail hrunning hended
      have hend : Command.end_ ∈ rest :=
        StructuredCode.end_mem_of_append happ (by rw [hds]; exact List.cons_ne_nil _ _)
      rw [hall, List.append_right_eq_self, List.filter_eq_nil_iff] at hfilter
      exact hfilter _ hend rfl
    · obtain ⟨-, rfl⟩ := htail.eq_of_ended hover
      exact hloops
  · obtain ⟨calls, hcalls⟩ := e.exists_numDue F (p.program.trace.length + 1)
    exact ⟨calls, hreach calls hcalls⟩

end Skybrush
