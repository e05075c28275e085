import Skybrush.TriggerSafety
import Skybrush.EdgeDetection

/-!
# Triggered Jumps

A triggered jump sets up a trigger that is to move the bytecode store to an address when an
edge is detected in a channel. What the channel shows is followed by the hysteresis machine of
the edge detector: a `Watch` says which trigger was set up and how, and is over when the
trigger has fired in one-shot mode or is set up again.

The trigger fires at the edges that were announced. But the executor checks the address and
then forgets it: the action of every trigger is the one that it was constructed with, to
resume, and that does not move the store.

## Main results

* `Executor.triggers_step_eq`: what a step does to the triggers, in full.
* `Executor.configured_run`: in every run, the action of every trigger is to resume.
* `Watch.fires_at_edges`: a trigger that was set up fires at the edges of its channel.
* `triggered_jump_iff`: the store is moved to the address exactly when it already stands
  there; without a trigger to set up, the program stops.
-/

namespace Skybrush

/-- Only a triggered jump has parameters of a triggered jump. -/
theorem Command.triggerParams_eq_some_iff {c : Command} {triggerParams : UInt8} :
    c.triggerParams = some triggerParams ↔ ∃ address, c = .triggeredJump triggerParams address := by
  cases c <;> simp [Command.triggerParams]

namespace Trigger

/-- Set up a trigger as the parameters of a triggered jump say. -/
def setUp (t : Trigger) (signals : Signals) (source : SignalSourcePtr) (triggerParams : UInt8) :
    Trigger :=
  let t := t.watchChannel signals source (triggerParams &&& 0x0F) (triggerEdge triggerParams)
  if triggerParams &&& 0x40 != 0 then t.setOneShotMode else t.setPermanentMode

/-- What nothing changes in a trigger: the action, and the ranges and the debouncing interval
of the edge detector. -/
structure Configured (t : Trigger) : Prop where
  action : t.action = Trigger.initial.action
  midRangeStart : t.edgeDetector.midRangeStart = EdgeDetector.initial.midRangeStart
  midRangeEnd : t.edgeDetector.midRangeEnd = EdgeDetector.initial.midRangeEnd
  debounceMs : t.edgeDetector.debounceMs = EdgeDetector.initial.debounceMs

theorem configured_initial : Trigger.initial.Configured := ⟨rfl, rfl, rfl, rfl⟩

theorem Configured.disable {t : Trigger} (h : t.Configured) : t.disable.Configured :=
  ⟨h.action, h.midRangeStart, h.midRangeEnd, h.debounceMs⟩

theorem Configured.watchChannel {t : Trigger} (h : t.Configured) (signals : Signals)
    (source : SignalSourcePtr) (channelIndex : UInt8) (edge : TriggerEdge) :
    (t.watchChannel signals source channelIndex edge).Configured := by
  cases source with
  | none => cases edge <;> exact ⟨h.action, h.midRangeStart, h.midRangeEnd, h.debounceMs⟩
  | some address =>
      by_cases hout : (signals address).numChannels ≤ channelIndex
      · simp only [Trigger.watchChannel, Option.isSome_some, if_true, hout, decide_true]
        exact ⟨h.action, h.midRangeStart, h.midRangeEnd, h.debounceMs⟩
      · simp only [Trigger.watchChannel, Option.isSome_some, if_true, hout, decide_false, if_false,
          Bool.false_eq_true]
        cases edge <;> exact ⟨h.action, h.midRangeStart, h.midRangeEnd, h.debounceMs⟩

/-- Setting up a trigger does not change its action. -/
theorem Configured.setUp {t : Trigger} (h : t.Configured) (signals : Signals)
    (source : SignalSourcePtr) (triggerParams : UInt8) :
    (t.setUp signals source triggerParams).Configured := by
  have hwatch := h.watchChannel signals source (triggerParams &&& 0x0F) (triggerEdge triggerParams)
  simp only [Trigger.setUp]
  split <;> exact ⟨hwatch.action, hwatch.midRangeStart, hwatch.midRangeEnd, hwatch.debounceMs⟩

/-- A sample does not change the configuration of an edge detector. -/
theorem feedAnalogSignal_configuration (d : EdgeDetector) (signal : UInt8) (time : ℤ) :
    (d.feedAnalogSignal signal time).2.midRangeStart = d.midRangeStart ∧
      (d.feedAnalogSignal signal time).2.midRangeEnd = d.midRangeEnd ∧
      (d.feedAnalogSignal signal time).2.debounceMs = d.debounceMs := by
  rw [EdgeDetector.feedAnalogSignal]
  split
  · exact ⟨rfl, rfl, rfl⟩
  · cases d.state <;> (repeat' split) <;> exact ⟨rfl, rfl, rfl⟩

/-- Checking a trigger does not change its action. -/
theorem Configured.checkAndFireWhenNeeded {t : Trigger} (h : t.Configured) (signals : Signals)
    (now : ℤ) : (t.checkAndFireWhenNeeded signals now).2.Configured := by
  have hfed : ∀ signal, Configured
      { t with edgeDetector := (t.edgeDetector.feedAnalogSignal signal now).2 } := by
    intro signal
    obtain ⟨hstart, hend, hdebounce⟩ := feedAnalogSignal_configuration t.edgeDetector signal now
    exact ⟨h.action, hstart.trans h.midRangeStart, hend.trans h.midRangeEnd,
      hdebounce.trans h.debounceMs⟩
  simp only [Trigger.checkAndFireWhenNeeded]
  split
  · exact h
  · split
    · rw [fire]
      split
      · exact (hfed _).disable
      · exact hfed _
    · exact hfed _

end Trigger

namespace Executor

variable (F : Rounding) (signals : Signals)

/-! ### Checking the triggers -/

/-- The location of the bytecode store. -/
def storeLocation (e : Executor) : Option ℕ := e.store.map (·.nextIndex)

/-- The action of every trigger is to resume. -/
def Configured (e : Executor) : Prop := ∀ i, (e.triggers i).Configured

/-- **Checking a trigger** whose action is to resume does not move the store. -/
theorem storeLocation_checkAndFireTrigger {e : Executor} (h : e.Configured) (now : ℕ)
    (i : Fin maxTriggerCount) :
    (checkAndFireTrigger signals now e i).storeLocation = e.storeLocation := by
  have haction := ((h i).checkAndFireWhenNeeded signals (toSigned now)).action
  simp only [checkAndFireTrigger, haction]
  split
  · simp only [storeLocation, executeActionOfTrigger, Trigger.initial, Option.map_map]
    rfl
  · rfl

theorem Configured.checkAndFireTrigger {e : Executor} (h : e.Configured) (now : ℕ)
    (i : Fin maxTriggerCount) : (checkAndFireTrigger signals now e i).Configured := by
  intro j
  rw [triggers_checkAndFireTrigger]
  rcases eq_or_ne j i with rfl | hne
  · rw [Function.update_self]
    exact (h j).checkAndFireWhenNeeded signals _
  · rw [Function.update_of_ne hne]
    exact h j

/-- **Checking the triggers** does not move the store. -/
theorem storeLocation_checkAndFireTriggers {e : Executor} (h : e.Configured) (now : ℕ) :
    (e.checkAndFireTriggers signals now).storeLocation = e.storeLocation := by
  rw [checkAndFireTriggers]
  generalize List.finRange maxTriggerCount = indices
  induction indices generalizing e with
  | nil => rfl
  | cons i indices ih =>
      rw [List.foldl_cons, ih (h.checkAndFireTrigger signals now i),
        storeLocation_checkAndFireTrigger signals h]

/-- **What comes before the next command** does not move the store. -/
theorem storeLocation_prepare {e : Executor} (h : e.Configured) (now : ℕ) :
    (e.prepare F signals now).storeLocation = e.storeLocation := by
  have htriggers := triggers_handleResetClockFlag F e now
  have hstore : (e.handleResetClockFlag F now).storeLocation = e.storeLocation := by
    simp only [handleResetClockFlag]
    split <;> rfl
  have hconf : (e.handleResetClockFlag F now).Configured := by
    rw [Configured, htriggers]
    exact h
  obtain ⟨color, transition, handler, hframe⟩ := handleActiveTransition_frame F
    ((e.handleResetClockFlag F now).checkAndFireTriggers signals now) now
  rw [← hstore, ← storeLocation_checkAndFireTriggers signals hconf now, prepare, hframe]
  rfl

/-- What comes before the next command checks each trigger once. -/
theorem triggers_prepare (e : Executor) (now : ℕ) (i : Fin maxTriggerCount) :
    (e.prepare F signals now).triggers i =
      ((e.triggers i).checkAndFireWhenNeeded signals (toSigned now)).2 := by
  simp only [prepare, triggers_handleActiveTransition, triggers_checkAndFireTriggers,
    triggers_handleResetClockFlag]

theorem signalSource_prepare (e : Executor) (now : ℕ) :
    (e.prepare F signals now).signalSource = e.signalSource := by
  obtain ⟨store, triggers, color, transition, handler, hframe⟩ := prepare_frame F signals e now
  rw [hframe]
  simp only [handleResetClockFlag]
  split <;> rfl

/-! ### Setting up triggers -/

/-- The trigger that a triggered jump sets up. -/
theorem triggers_setUpTrigger_eq (e : Executor) (triggerParams : UInt8) (address : ℕ) :
    (e.setUpTrigger signals triggerParams address).triggers =
      match e.findTriggerForChannelIndex (triggerParams &&& 0x0F) with
      | none => e.triggers
      | some i => Function.update e.triggers i
          ((e.triggers i).setUp signals e.signalSource triggerParams) := by
  obtain ⟨ended, error, hframe⟩ := checkAddress_frame e triggerParams address
  have hsame : ({ e with ended := ended, error := error } :
      Executor).findTriggerForChannelIndex (triggerParams &&& 0x0F) =
        e.findTriggerForChannelIndex (triggerParams &&& 0x0F) := rfl
  rw [setUpTrigger, hframe]
  dsimp only
  rw [hsame]
  cases e.findTriggerForChannelIndex (triggerParams &&& 0x0F) <;> rfl

/-- The trigger that a step sets up, with the parameters of its triggered jump. -/
def setsUp (e : Executor) (now : ℕ) : Option (Fin maxTriggerCount × UInt8) := do
  let c ← e.executes F signals now
  let triggerParams ← c.triggerParams
  let i ← (e.prepare F signals now).findTriggerForChannelIndex (triggerParams &&& 0x0F)
  pure (i, triggerParams)

/-- After the program has ended, the triggers are not checked. -/
theorem triggers_step_of_ended {e : Executor} {now : ℕ}
    (hended : (e.handleResetClockFlag F now).ended = true) :
    (e.step F signals now).triggers = e.triggers := by
  rw [step]
  simp only [hended, if_true]
  exact triggers_handleResetClockFlag F e now

/-- **What a step does to the triggers**: each of them is checked, and then the triggered jump
sets up the one that it has found. -/
theorem triggers_step_eq {e : Executor} {now : ℕ}
    (hended : (e.handleResetClockFlag F now).ended = false) :
    (e.step F signals now).triggers =
      match e.setsUp F signals now with
      | none => (e.prepare F signals now).triggers
      | some (i, triggerParams) => Function.update (e.prepare F signals now).triggers i
          (((e.prepare F signals now).triggers i).setUp signals e.signalSource triggerParams) := by
  have hcase := step_cases F signals e now
  generalize e.step F signals now = e' at hcase ⊢
  cases hcase with
  | ended hend => rw [hended] at hend; cases hend
  | idle _ hdue =>
      have hnone : e.setsUp F signals now = none := by
        rw [setsUp, executes_of_not_due F signals hdue]
        rfl
      rw [hnone]
      rfl
  | noStore _ hdue hstore =>
      have hnone : e.setsUp F signals now = none := by
        rw [setsUp, executes, hstore, if_neg (Bool.eq_false_iff.mp hended), if_pos hdue]
        rfl
      rw [hnone]
      rfl
  | perform s _ hdue hstore =>
      have hexec := executes_of_due F signals hended hdue hstore
      rw [setsUp, hexec]
      cases hparams : s.fetch.1.triggerParams with
      | none =>
          rcases triggers_perform F signals ((e.prepare F signals now).withStore s.fetch.2)
            s.fetch.1 with hsame | ⟨triggerParams, address, hc⟩
          · rw [hsame]
            simp only [Option.bind_eq_bind, Option.bind_some, hparams, Option.bind_none]
            rfl
          · rw [hc] at hparams
            cases hparams
      | some triggerParams =>
          obtain ⟨address, hc⟩ := Command.triggerParams_eq_some_iff.mp hparams
          have hset := triggers_setUpTrigger_eq signals
            ((e.prepare F signals now).withStore s.fetch.2) triggerParams address.toNat
          have hfind : ((e.prepare F signals now).withStore
              s.fetch.2).findTriggerForChannelIndex (triggerParams &&& 0x0F) =
                (e.prepare F signals now).findTriggerForChannelIndex (triggerParams &&& 0x0F) := rfl
          have hsource : ((e.prepare F signals now).withStore s.fetch.2).signalSource =
              e.signalSource := signalSource_prepare F signals e now
          rw [hfind, hsource] at hset
          rw [hc, perform, hset]
          simp only [Option.bind_eq_bind, Option.bind_some, Command.triggerParams]
          cases (e.prepare F signals now).findTriggerForChannelIndex (triggerParams &&& 0x0F) <;>
            rfl

/-! ### Runs -/

/-- A step does not change the action of a trigger. -/
theorem Configured.step {e : Executor} (h : e.Configured) (now : ℕ) :
    (e.step F signals now).Configured := by
  have hprep : (e.prepare F signals now).Configured := by
    intro i
    rw [triggers_prepare]
    exact (h i).checkAndFireWhenNeeded signals _
  rw [Configured]
  cases hended : (e.handleResetClockFlag F now).ended with
  | true =>
      rw [triggers_step_of_ended F signals hended]
      exact h
  | false =>
      rw [triggers_step_eq F signals hended]
      cases e.setsUp F signals now with
      | none => exact hprep
      | some p =>
          obtain ⟨k, triggerParams⟩ := p
          intro i
          dsimp only
          rcases eq_or_ne i k with rfl | hne
          · rw [Function.update_self]
            exact (hprep i).setUp signals _ _
          · rw [Function.update_of_ne hne]
            exact hprep i

/-- No call changes the action of a trigger. -/
theorem Configured.apply {e : Executor} (h : e.Configured) (op : ExecutorOp) :
    (e.apply F op).Configured := by
  rcases triggers_apply F e op with hsame | ⟨signals, now, rfl⟩
  · rw [Configured, hsame]
    exact h
  · exact h.step F signals now

/-- **In every run**, the action of every trigger is to resume. -/
theorem configured_run (memory : UninitMemory) (ops : List ExecutorOp) :
    ((construct memory).run F ops).Configured := by
  induction ops using List.reverseRecOn with
  | nil => exact fun i => Trigger.configured_initial
  | append_singleton ops op ih =>
      rw [run_concat]
      exact ih.apply F op

end Executor

/-! ### Watching a channel -/

/-- What a triggered jump has set up: the trigger, with the signal source and the
parameters. -/
structure Watch where
  slot : Fin maxTriggerCount
  source : ℕ
  triggerParams : UInt8

namespace Watch

/-- The channel that is watched. -/
def channel (w : Watch) : UInt8 := w.triggerParams &&& 0x0F

/-- Whether the trigger is to fire only once. -/
def oneShot (w : Watch) : Bool := w.triggerParams &&& 0x40 != 0

/-- The edge detector, with callbacks for the edges that are watched. -/
def detector (w : Watch) : EdgeDetector :=
  { EdgeDetector.initial with
    risingCallback := triggerEdge w.triggerParams == .rising ||
      triggerEdge w.triggerParams == .change
    fallingCallback := triggerEdge w.triggerParams == .falling ||
      triggerEdge w.triggerParams == .change }

/-- The sample of the channel. -/
def sample (w : Watch) (signals : Signals) (now : ℕ) : UInt8 × ℤ :=
  ((signals w.source).channelValue w.channel, toSigned now)

/-- The trigger watches the channel, and its detector knows of the signal what the samples
have shown. -/
structure Armed (w : Watch) (t : Trigger) (r : Debounced) : Prop where
  signalSource : t.signalSource = some w.source
  channelIndex : t.channelIndex = w.channel
  edgeDetector : t.edgeDetector = w.detector.track r
  oneShotMode : t.oneShotMode = w.oneShot

/-- **Setting up a trigger** for an edge of a channel that exists arms it. -/
theorem armed_setUp {w : Watch} {t : Trigger} (h : t.Configured) {signals : Signals}
    (hedge : triggerEdge w.triggerParams ≠ .none)
    (hchannel : w.channel < (signals w.source).numChannels) :
    w.Armed (t.setUp signals (some w.source) w.triggerParams) .unknown := by
  have hin : ¬ (signals w.source).numChannels ≤ w.triggerParams &&& 0x0F := by
    rw [UInt8.not_le]
    exact hchannel
  have hdetector : ∀ rising falling, w.detector.risingCallback = rising →
      w.detector.fallingCallback = falling →
      EdgeDetector.reset
          { t.edgeDetector with risingCallback := rising, fallingCallback := falling } =
        w.detector.track .unknown := by
    rintro _ _ rfl rfl
    simp only [EdgeDetector.reset, EdgeDetector.track, Debounced.unknown, h.midRangeStart,
      h.midRangeEnd, h.debounceMs, detector]
    rfl
  have hwatch : ∀ rising falling, w.detector.risingCallback = rising →
      w.detector.fallingCallback = falling →
      w.Armed (if w.triggerParams &&& 0x40 != 0 then
        (Trigger.installCallbacks
          { t with signalSource := some w.source, channelIndex := w.channel }
          rising falling).setOneShotMode
      else
        (Trigger.installCallbacks
          { t with signalSource := some w.source, channelIndex := w.channel }
          rising falling).setPermanentMode) .unknown := by
    intro rising falling hrising hfalling
    split
    case isTrue hshot =>
      exact ⟨rfl, rfl, hdetector rising falling hrising hfalling, hshot.symm⟩
    case isFalse hshot =>
      exact ⟨rfl, rfl, hdetector rising falling hrising hfalling,
        (Bool.eq_false_iff.mpr hshot).symm⟩
  simp only [Trigger.setUp, Trigger.watchChannel, Option.isSome_some, if_true, hin, decide_false,
    Bool.false_eq_true, if_false]
  cases hkind : triggerEdge w.triggerParams with
  | none => exact absurd hkind hedge
  | rising => exact hwatch true false (by simp [detector, hkind]) (by simp [detector, hkind])
  | falling => exact hwatch false true (by simp [detector, hkind]) (by simp [detector, hkind])
  | change => exact hwatch true true (by simp [detector, hkind]) (by simp [detector, hkind])

/-- The trigger fires for an edge that its detector reports. -/
theorem feedAnalogSignal_eq (d : EdgeDetector) (signal : UInt8) (time : ℤ) :
    d.feedAnalogSignal signal time =
      ((d.feed (signal, time)).1.1.isSome, (d.feed (signal, time)).2) := by
  rw [EdgeDetector.feed]
  cases hfired : (d.feedAnalogSignal signal time).1 <;> simp [hfired, Prod.ext_iff]

/-- **Checking an armed trigger**: it fires for an edge that the sample shows, and stays armed,
unless it has fired in one-shot mode. -/
theorem Armed.checkAndFireWhenNeeded {w : Watch} {t : Trigger} {r : Debounced}
    (h : w.Armed t r) (signals : Signals) (now : ℕ) :
    (t.checkAndFireWhenNeeded signals (toSigned now)).1 =
        (r.process w.detector (w.sample signals now)).1.1.isSome ∧
      ((w.oneShot && (r.process w.detector (w.sample signals now)).1.1.isSome) = false →
        w.Armed (t.checkAndFireWhenNeeded signals (toSigned now)).2
          (r.process w.detector (w.sample signals now)).2) := by
  have hfeed : t.edgeDetector.feedAnalogSignal ((signals w.source).channelValue t.channelIndex)
      (toSigned now) = ((r.process w.detector (w.sample signals now)).1.1.isSome,
        w.detector.track (r.process w.detector (w.sample signals now)).2) := by
    have hdebounce : ¬ 0 < EdgeDetector.initial.debounceMs := by decide
    have hranges : EdgeDetector.initial.midRangeStart ≤ EdgeDetector.initial.midRangeEnd := by
      decide
    have hopen : ¬ w.detector.Filters r (w.sample signals now).2 := fun hf => hdebounce hf.1
    have hsame := @EdgeDetector.feed_track_of_not_filters w.detector r _ hranges hopen
    rw [feedAnalogSignal_eq, h.edgeDetector, h.channelIndex]
    exact congrArg (fun x : (Option Edge × Option Bool) × EdgeDetector => (x.1.1.isSome, x.2)) hsame
  simp only [Trigger.checkAndFireWhenNeeded, h.signalSource, hfeed, true_and]
  intro hstays
  split
  case isTrue hfired =>
    rw [hfired, Bool.and_true] at hstays
    have hmode : t.oneShotMode = false := h.oneShotMode.trans hstays
    simp only [Trigger.fire, hmode, Bool.false_eq_true, if_false]
    exact ⟨rfl, h.channelIndex, rfl, hstays.symm⟩
  case isFalse => exact ⟨rfl, h.channelIndex, rfl, h.oneShotMode⟩

variable (F : Rounding)

/-- The call checks the triggers, and the watched edge is detected. -/
def detects (w : Watch) (e : Executor) (r : Debounced) : ExecutorOp → Bool
  | .step signals now =>
      !(e.handleResetClockFlag F now).ended &&
        (r.process w.detector (w.sample signals now)).1.1.isSome
  | _ => false

/-- What is known of the signal after a call, as long as the channel is watched: until the
edge is detected in one-shot mode, or the trigger is set up again. -/
def next (w : Watch) (e : Executor) (r : Debounced) : ExecutorOp → Option Debounced
  | .step signals now =>
      if (e.handleResetClockFlag F now).ended then some r
      else if (w.oneShot && (r.process w.detector (w.sample signals now)).1.1.isSome) ||
          (e.setsUp F signals now).any (fun p => p.1 == w.slot) then
        none
      else
        some (r.process w.detector (w.sample signals now)).2
  | _ => some r

/-- Something holds at every call, as long as the channel is watched. -/
def Throughout (w : Watch) (P : Executor → Debounced → ExecutorOp → Prop) :
    Executor → Debounced → List ExecutorOp → Prop
  | _, _, [] => True
  | e, r, op :: ops =>
      P e r op ∧ ∀ r', w.next F e r op = some r' → w.Throughout P (e.apply F op) r' ops

/-- **The induction over a run** while the channel is watched: what holds at every call in
states with an invariant, if the calls keep the invariant. -/
theorem throughout_of_invariant {w : Watch} {P : Executor → Debounced → ExecutorOp → Prop}
    {I : Executor → Debounced → Prop} (hP : ∀ e r op, I e r → P e r op)
    (hI : ∀ e r op r', I e r → w.next F e r op = some r' → I (e.apply F op) r')
    (ops : List ExecutorOp) {e : Executor} {r : Debounced} (h : I e r) :
    w.Throughout F P e r ops := by
  induction ops generalizing e r with
  | nil => trivial
  | cons op ops ih => exact ⟨hP e r op h, fun r' hnext => ih (hI e r op r' h hnext)⟩

/-- What comes to the same in states with an invariant comes to the same at every call. -/
theorem throughout_congr {w : Watch} {P Q : Executor → Debounced → ExecutorOp → Prop}
    {I : Executor → Prop} (hPQ : ∀ e r op, I e → (P e r op ↔ Q e r op))
    (hI : ∀ e op, I e → I (e.apply F op)) (ops : List ExecutorOp) {e : Executor} {r : Debounced}
    (h : I e) : w.Throughout F P e r ops ↔ w.Throughout F Q e r ops := by
  induction ops generalizing e r with
  | nil => exact Iff.rfl
  | cons op ops ih =>
      exact and_congr (hPQ e r op h) (forall₂_congr fun r' _ => ih (hI e op h))

end Watch

namespace Executor

variable (F : Rounding)

/-- The trigger fires in a call. -/
def fires (e : Executor) (i : Fin maxTriggerCount) : ExecutorOp → Bool
  | .step signals now =>
      !(e.handleResetClockFlag F now).ended &&
        ((e.triggers i).checkAndFireWhenNeeded signals (toSigned now)).1
  | _ => false

/-- The location of the store when the triggers have been checked: in a step, where the
execution continues. -/
def locationBehindTriggers (e : Executor) : ExecutorOp → Option ℕ
  | .step signals now => (e.prepare F signals now).storeLocation
  | _ => e.storeLocation

end Executor

namespace Watch

variable (F : Rounding)

/-- A call keeps a trigger armed while it is watched. -/
theorem Armed.apply {w : Watch} {e : Executor} {r r' : Debounced} {op : ExecutorOp}
    (h : w.Armed (e.triggers w.slot) r) (hnext : w.next F e r op = some r') :
    w.Armed ((e.apply F op).triggers w.slot) r' := by
  cases op with
  | setBytecodeStore s | setSignalSource source | setClockSkewCompensationFactor value | rewind |
    stop =>
      cases hnext
      rcases Executor.triggers_apply F e _ with hsame | ⟨signals, now, hstep⟩
      · rw [hsame]
        exact h
      · cases hstep
  | step signals now =>
    rw [next] at hnext
    rw [Executor.apply]
    cases hended : (e.handleResetClockFlag F now).ended with
    | true =>
        rw [if_pos hended, Option.some.injEq] at hnext
        subst hnext
        rw [Executor.triggers_step_of_ended F signals hended]
        exact h
    | false =>
        rw [if_neg (Bool.eq_false_iff.mp hended)] at hnext
        split at hnext
        · cases hnext
        case isFalse hwatched =>
          cases hnext
          rw [Bool.or_eq_true, not_or, Bool.not_eq_true, Bool.not_eq_true] at hwatched
          have hchecked := (h.checkAndFireWhenNeeded signals now).2 hwatched.1
          rw [← Executor.triggers_prepare F] at hchecked
          rw [Executor.triggers_step_eq F signals hended]
          cases hsets : e.setsUp F signals now with
          | none => exact hchecked
          | some p =>
              obtain ⟨k, triggerParams⟩ := p
              have hne : w.slot ≠ k := by
                rintro rfl
                rw [hsets] at hwatched
                simp at hwatched
              dsimp only
              rw [Function.update_of_ne hne]
              exact hchecked

/-- **A trigger that is armed** fires at the edges of its channel, as long as it is watched. -/
theorem fires_at_edges {w : Watch} {e : Executor} {r : Debounced}
    (h : w.Armed (e.triggers w.slot) r) (ops : List ExecutorOp) :
    w.Throughout F (fun e r op => e.fires F w.slot op = w.detects F e r op) e r ops := by
  refine throughout_of_invariant (I := fun e r => w.Armed (e.triggers w.slot) r) F
    (fun e r op harmed => ?_) (fun e r op r' harmed hnext => harmed.apply F hnext) ops h
  cases op with
  | step signals now =>
      rw [Executor.fires, detects, (harmed.checkAndFireWhenNeeded signals now).1]
  | _ => rfl

end Watch

namespace Executor

variable (F : Rounding)

/-- **The store is not moved** by the triggers. -/
theorem Configured.locationBehindTriggers {e : Executor} (h : e.Configured) (op : ExecutorOp) :
    e.locationBehindTriggers F op = e.storeLocation := by
  cases op with
  | step signals now => exact storeLocation_prepare F signals h now
  | _ => rfl

/-- **A triggered jump** for an edge of a channel that exists arms the trigger that it finds. -/
theorem armed_of_executes {e : Executor} (h : e.Configured) {signals : Signals} {now : ℕ}
    {w : Watch} {address : UInt64}
    (hexec : e.executes F signals now = some (.triggeredJump w.triggerParams address))
    (hedge : triggerEdge w.triggerParams ≠ .none) (hsource : e.signalSource = some w.source)
    (hchannel : w.channel < (signals w.source).numChannels)
    (hslot : (e.prepare F signals now).findTriggerForChannelIndex w.channel = some w.slot) :
    w.Armed ((e.step F signals now).triggers w.slot) .unknown := by
  have hended : (e.handleResetClockFlag F now).ended = false := by
    cases hend : (e.handleResetClockFlag F now).ended with
    | false => rfl
    | true =>
        rw [executes_of_ended F signals hend] at hexec
        cases hexec
  have hsets : e.setsUp F signals now = some (w.slot, w.triggerParams) := by
    rw [setsUp, hexec]
    simp only [Option.bind_eq_bind, Option.bind_some, Command.triggerParams]
    exact congrArg (Option.bind · fun i => some (i, w.triggerParams)) hslot
  have hconf : ((e.prepare F signals now).triggers w.slot).Configured := by
    rw [triggers_prepare]
    exact (h w.slot).checkAndFireWhenNeeded signals _
  rw [triggers_step_eq F signals hended, hsets, hsource]
  dsimp only
  rw [Function.update_self]
  exact Watch.armed_setUp hconf hedge hchannel

/-- Where no trigger is found, none watches the channel. -/
theorem channelIndex_ne_of_noTrigger {e : Executor} {channelIndex : UInt8}
    (h : e.findTriggerForChannelIndex channelIndex = none) (i : Fin maxTriggerCount) :
    (e.triggers i).channelIndex ≠ channelIndex := by
  rw [findTriggerForChannelIndex, Option.or_eq_none_iff, List.find?_eq_none] at h
  simpa using h.1 i (List.mem_finRange i)

/-- **A triggered jump that finds no trigger** stops the program. -/
theorem step_of_noTrigger {e : Executor} {signals : Signals} {now : ℕ} {triggerParams : UInt8}
    {address : UInt64}
    (hexec : e.executes F signals now = some (.triggeredJump triggerParams address))
    (hnone : (e.prepare F signals now).findTriggerForChannelIndex (triggerParams &&& 0x0F) =
      none) :
    (e.step F signals now).ended = true ∧
      (e.step F signals now).error = .noMoreAvailableTriggers ∧
      ∀ i, ((e.step F signals now).triggers i).channelIndex ≠ triggerParams &&& 0x0F := by
  obtain ⟨s, -, -, hstep⟩ := step_of_executes F signals hexec
  obtain ⟨ended, error, hframe⟩ := checkAddress_frame
    ((e.prepare F signals now).withStore s.fetch.2) triggerParams address.toNat
  have hsame : ({ (e.prepare F signals now).withStore s.fetch.2 with
      ended := ended, error := error } : Executor).findTriggerForChannelIndex
        (triggerParams &&& 0x0F) = none := hnone
  rw [hstep, perform, setUpTrigger, hframe]
  dsimp only
  rw [hsame]
  exact ⟨rfl, rfl, channelIndex_ne_of_noTrigger hnone⟩

end Executor

open Executor in
/-- **A triggered jump forgets its address.** In every reachable state, a triggered jump for an
edge of a channel of the signal source sets up a trigger that fires at the edges which the
channel shows from then on; and the store stands at the address behind these edges exactly when
it stands there before. If there is no trigger left to be set up, the program stops with an error,
and no trigger watches the channel. -/
theorem triggered_jump_iff (F : Rounding) (memory : UninitMemory) (ops : List ExecutorOp)
    {signals : Signals} {now source : ℕ} {triggerParams : UInt8} {address : UInt64}
    (hexec : ((construct memory).run F ops).executes F signals now =
      some (.triggeredJump triggerParams address))
    (hedge : triggerEdge triggerParams ≠ .none)
    (hsource : ((construct memory).run F ops).signalSource = some source)
    (hchannel : triggerParams &&& 0x0F < (signals source).numChannels) (later : List ExecutorOp) :
    match (((construct memory).run F ops).prepare F signals now).findTriggerForChannelIndex
        (triggerParams &&& 0x0F) with
    | none =>
        (((construct memory).run F ops).step F signals now).ended = true ∧
          (((construct memory).run F ops).step F signals now).error = .noMoreAvailableTriggers ∧
          ∀ i, ((((construct memory).run F ops).step F signals now).triggers i).channelIndex ≠
            triggerParams &&& 0x0F
    | some slot =>
        let w : Watch := ⟨slot, source, triggerParams⟩
        w.Throughout F (fun e r op => e.fires F slot op = w.detects F e r op)
            (((construct memory).run F ops).step F signals now) .unknown later ∧
          (w.Throughout F (fun e r op => w.detects F e r op = true →
              e.locationBehindTriggers F op = some address.toNat)
            (((construct memory).run F ops).step F signals now) .unknown later ↔
          w.Throughout F (fun e r op => w.detects F e r op = true →
              e.storeLocation = some address.toNat)
            (((construct memory).run F ops).step F signals now) .unknown later) := by
  have hconf := configured_run F memory ops
  split
  case h_1 hnone => exact step_of_noTrigger F hexec hnone
  case h_2 slot hslot =>
    refine ⟨Watch.fires_at_edges F (armed_of_executes F hconf (w := ⟨slot, source, triggerParams⟩)
      hexec hedge hsource hchannel hslot) later, ?_⟩
    refine Watch.throughout_congr (I := Configured) F (fun e r op h => ?_)
      (fun e op h => h.apply F op) later (hconf.step F signals now)
    rw [h.locationBehindTriggers F op]

/-- A program that sets up a trigger to jump back to its start when channel 0 rises, and then
does nothing. -/
def jumpBack : List ExecutorOp :=
  [.setSignalSource (some 0), .setBytecodeStore (some (.ofArray [0x13, 0x20, 0, 1, 1, 1, 0]))]

/-- A source with four channels that all show a value. -/
def allChannels (value : UInt8) : Signals := fun _ => ⟨4, fun _ => value, id⟩

/-- The rising edge of the program that jumps back. -/
def jumpBackWatch : Watch := ⟨⟨0, by decide⟩, 0, 0x20⟩

open Executor in
/-- The trigger of the program that jumps back fires when the channel rises. -/
theorem triggered_jump_iff_jumpBack :
    jumpBackWatch.Throughout .exact
        (fun e r op => e.fires .exact jumpBackWatch.slot op = jumpBackWatch.detects .exact e r op)
        (((construct .zero).run .exact jumpBack).step .exact (allChannels 0) 0) .unknown
        [.step (allChannels 0) 1, .step (allChannels 255) 2] ∧
      (jumpBackWatch.Throughout .exact (fun e r op => jumpBackWatch.detects .exact e r op = true →
          e.locationBehindTriggers .exact op = some (0 : UInt64).toNat)
        (((construct .zero).run .exact jumpBack).step .exact (allChannels 0) 0) .unknown
        [.step (allChannels 0) 1, .step (allChannels 255) 2] ↔
      jumpBackWatch.Throughout .exact (fun e r op => jumpBackWatch.detects .exact e r op = true →
          e.storeLocation = some (0 : UInt64).toNat)
        (((construct .zero).run .exact jumpBack).step .exact (allChannels 0) 0) .unknown
        [.step (allChannels 0) 1, .step (allChannels 255) 2]) := by
  have hjump := @triggered_jump_iff .exact .zero jumpBack (allChannels 0) 0 0 0x20 0
    (by decide +kernel) (by decide) rfl (by decide)
    [.step (allChannels 0) 1, .step (allChannels 255) 2]
  have hslot : (((construct .zero).run .exact jumpBack).prepare .exact (allChannels 0)
      0).findTriggerForChannelIndex (0x20 &&& 0x0F) = some jumpBackWatch.slot := by
    decide +kernel
  rw [hslot] at hjump
  exact hjump

open Executor in
/-- The program that jumps back does not jump back. -/
theorem jumpBack_stays :
    ¬ ∀ (F : Rounding) (memory : UninitMemory) (ops : List ExecutorOp) (signals : Signals)
      (now : ℕ) (w : Watch) (address : UInt64),
      ((construct memory).run F ops).executes F signals now =
        some (.triggeredJump w.triggerParams address) →
      triggerEdge w.triggerParams ≠ .none → isAddressValid address.toNat = true →
      ((construct memory).run F ops).signalSource = some w.source →
      w.channel < (signals w.source).numChannels →
      (((construct memory).run F ops).prepare F signals now).findTriggerForChannelIndex
        w.channel = some w.slot →
      ∀ later, w.Throughout F (fun e r op => w.detects F e r op = true →
          e.locationBehindTriggers F op = some address.toNat)
        (((construct memory).run F ops).step F signals now) .unknown later := by
  intro h
  have hlater := h .exact .zero jumpBack (allChannels 0) 0 jumpBackWatch 0 (by decide +kernel)
    (by decide) (by decide) rfl (by decide) (by decide +kernel)
    [.step (allChannels 0) 1, .step (allChannels 255) 2]
  -- the channel is low at first, and rises in the second step
  have hrise := (hlater.2 ⟨some false, none⟩ (by decide +kernel)).1 (by decide +kernel)
  exact absurd hrise (by decide +kernel)

end Skybrush
