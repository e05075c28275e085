import Skybrush.PlayerSteps

/-!
# Uninitialised Memory

The constructor of the executor leaves five fields as they happen to be. The clock fields
are set by the first step of the constructor of the player and again behind every rewind,
and the start time of the current command is set before it is read. The pointer to the
signal source is never set by the light player, but three commands read it.

Two players that differ in what the pointer and the start time hold make the same steps
and return the same results, as long as none of the three commands is executed.

## Main results

* `Executor.step_withMemory`: what a step does, whatever the two fields hold.
* `BytecodePlayer.steps_differ`: two players that differ in them make the same steps.
* `memory_unobservable_iff`: whatever the memory held, the results are the same and no
  command uses the signal source, exactly when the run in zeroed memory executes none of
  the three commands.
-/

namespace Skybrush

namespace Executor

variable (F : Rounding) (signals : Signals)

/-- The executor with other contents of the fields that the light player does not set. -/
def withMemory (e : Executor) (source : SignalSourcePtr) (start : ℕ) : Executor :=
  { e with signalSource := source, currentCommandStartTime := start }

variable (e : Executor) (source : SignalSourcePtr) (start : ℕ)

theorem handleResetClockFlag_withMemory (now : ℕ) :
    (e.withMemory source start).handleResetClockFlag F now =
      (e.handleResetClockFlag F now).withMemory source start := by
  by_cases hflag : e.resetClockFlag = true
  · have hflag' : (e.withMemory source start).resetClockFlag = true := hflag
    rw [handleResetClockFlag, handleResetClockFlag, if_pos hflag, if_pos hflag']
    rfl
  · have hflag' : ¬ (e.withMemory source start).resetClockFlag = true := hflag
    rw [handleResetClockFlag, handleResetClockFlag, if_neg hflag, if_neg hflag']

/-- Triggers use the signal source that they were set up with. -/
theorem checkAndFireTriggers_withMemory (now : ℕ) :
    (e.withMemory source start).checkAndFireTriggers signals now =
      (e.checkAndFireTriggers signals now).withMemory source start := by
  have htrigger : ∀ (e : Executor) (i : Fin maxTriggerCount),
      checkAndFireTrigger signals now (e.withMemory source start) i =
        (checkAndFireTrigger signals now e i).withMemory source start := by
    intro e i
    have hsame : (e.withMemory source start).triggers = e.triggers := rfl
    simp only [checkAndFireTrigger, hsame]
    cases ((e.triggers i).checkAndFireWhenNeeded signals (toSigned now)).1 with
    | false => rfl
    | true =>
        simp only [if_true, executeActionOfTrigger]
        split <;> rfl
  rw [checkAndFireTriggers, checkAndFireTriggers]
  induction List.finRange maxTriggerCount generalizing e with
  | nil => rfl
  | cons i indices ih => rw [List.foldl_cons, List.foldl_cons, htrigger, ih]

theorem handleActiveTransition_withMemory (now : ℕ) :
    (e.withMemory source start).handleActiveTransition F now =
      (e.handleActiveTransition F now).withMemory source start := by
  have hstep : (e.withMemory source start).stepTransition F now =
      ((e.stepTransition F now).1, (e.stepTransition F now).2.withMemory source start) := rfl
  have hsame : (e.withMemory source start).transition = e.transition := rfl
  simp only [handleActiveTransition, hsame, hstep]
  split
  · split <;> rfl
  · rfl

/-- Preparing a step sets the start time of the command. -/
theorem prepare_withMemory (now : ℕ) :
    (e.withMemory source start).prepare F signals now =
      (e.prepare F signals now).setSignalSource source := by
  simp only [prepare, handleResetClockFlag_withMemory, checkAndFireTriggers_withMemory,
    handleActiveTransition_withMemory]
  rfl

/-- The command that a step executes does not depend on the two fields. -/
theorem executes_withMemory (now : ℕ) :
    (e.withMemory source start).executes F signals now = e.executes F signals now := by
  simp only [executes, handleResetClockFlag_withMemory, prepare_withMemory]
  rfl

/-- **A command that does not use the signal source** does the same whatever it is. -/
theorem perform_setSignalSource {c : Command} (hc : c.usesChannels = false) :
    (e.setSignalSource source).perform F signals c =
      (e.perform F signals c).setSignalSource source := by
  cases c with
  | setColorFromChannels _ _ | fadeToColorFromChannels _ _ | triggeredJump _ _ => cases hc
  | jump address =>
      simp only [perform, jumpTo]
      split <;> rfl
  | loopBegin iterations =>
      simp only [perform, beginLoop, setSignalSource]
      split <;> rfl
  | loopEnd =>
      simp only [perform, handleLoopEndCommand, setSignalSource]
      split <;> rfl
  | _ => rfl

/-- **A step that does not use the signal source** does the same whatever the two fields
hold, and does not set the signal source. -/
theorem step_withMemory (now : ℕ)
    (h : ∀ c, e.executes F signals now = some c → c.usesChannels = false) :
    ∃ start', (e.withMemory source start).step F signals now =
      (e.step F signals now).withMemory source start' := by
  have hprep := prepare_withMemory F signals e source start now
  have hcase := step_cases F signals e now
  generalize e.step F signals now = e' at hcase ⊢
  cases hcase with
  | ended hend =>
      refine ⟨start, ?_⟩
      rw [step, handleResetClockFlag_withMemory]
      exact if_pos hend
  | idle hend hdue =>
      refine ⟨start, ?_⟩
      simp only [step, handleDueCommand, handleResetClockFlag_withMemory,
        checkAndFireTriggers_withMemory, handleActiveTransition_withMemory]
      exact (if_neg (by simp [withMemory, hend])).trans (if_neg hdue)
  | noStore hend hdue hstore =>
      refine ⟨now, ?_⟩
      have hcase' := step_cases F signals (e.withMemory source start) now
      generalize (e.withMemory source start).step F signals now = e'' at hcase'
      cases hcase' with
      | ended hend' =>
          rw [handleResetClockFlag_withMemory] at hend'
          exact absurd (hend'.symm.trans hend) (by decide)
      | idle hend' hdue' =>
          rw [hprep] at hdue'
          exact absurd hdue hdue'
      | noStore =>
          rw [hprep]
          rfl
      | perform s hend' hdue' hstore' =>
          rw [hprep] at hstore'
          exact absurd (hstore.symm.trans hstore') (by simp)
  | perform s hend hdue hstore =>
      have hexec := executes_of_due F signals hend hdue hstore
      obtain ⟨s', hs', hfetch, hstep⟩ := step_of_executes F signals
        ((executes_withMemory F signals e source start now).trans hexec)
      have hstore' : (e.prepare F signals now).store = some s' := by
        rwa [hprep] at hs'
      obtain rfl : s = s' := Option.some.inj (hstore.symm.trans hstore')
      refine ⟨(((e.prepare F signals now).withStore s.fetch.2).perform F signals
        s.fetch.1).currentCommandStartTime, ?_⟩
      rw [hstep, hprep]
      exact perform_setSignalSource F signals ((e.prepare F signals now).withStore s.fetch.2)
        source (h _ hexec)

theorem rewind_withMemory :
    (e.withMemory source start).rewind = e.rewind.withMemory source start := by
  simp only [rewind, withMemory]
  split <;> rfl

end Executor

/-! ### Two players -/

/-- The results of a sequence of calls on a light player. -/
def lightPlayerResults (F : Rounding) (signals : Signals) (fuel : ℕ) (p : BytecodePlayer) :
    List LightPlayerCall → Option (List LightPlayerResult)
  | [] => some []
  | call :: calls => (call.run F signals fuel p).bind fun r =>
      (lightPlayerResults F signals fuel r.2 calls).map (r.1 :: ·)

/-- No command that the step executes uses the signal source. -/
def PlayerStep.LeavesSource (F : Rounding) (signals : Signals) (s : PlayerStep) : Prop :=
  ∀ c, s.command F signals = some c → c.usesChannels = false

namespace BytecodePlayer

variable {F : Rounding} {signals : Signals}

/-- Two players that differ only in fields that the light player does not set. -/
def Differ (p q : BytecodePlayer) : Prop :=
  ∃ source start, q = { p with executor := p.executor.withMemory source start }

/-- The same step of two such players. -/
def StepsDiffer (s t : PlayerStep) : Prop := Differ s.player t.player ∧ s.now = t.now

theorem Differ.rewindIfNeeded {p q : BytecodePlayer} (h : Differ p q) (target : ℕ) :
    Differ (p.rewindIfNeeded target) (q.rewindIfNeeded target) := by
  obtain ⟨source, start, rfl⟩ := h
  refine ⟨source, start, ?_⟩
  simp only [BytecodePlayer.rewindIfNeeded, Executor.rewind_withMemory]
  split <;> rfl

theorem Differ.stepToNext {p q : BytecodePlayer} (h : Differ p q)
    (hok : PlayerStep.LeavesSource F signals ⟨p, p.nextTimestamp⟩) :
    Differ (p.stepToNext F signals) (q.stepToNext F signals) := by
  obtain ⟨source, start, rfl⟩ := h
  obtain ⟨start', hstep⟩ :=
    Executor.step_withMemory F signals p.executor source start p.nextTimestamp hok
  refine ⟨source, start', ?_⟩
  simp only [BytecodePlayer.stepToNext, hstep]
  rfl

theorem Differ.stepToTarget {p q : BytecodePlayer} (h : Differ p q) {target : ℕ}
    (hok : PlayerStep.LeavesSource F signals ⟨p, target⟩) :
    Differ (p.stepToTarget F signals target) (q.stepToTarget F signals target) := by
  obtain ⟨source, start, rfl⟩ := h
  obtain ⟨start', hstep⟩ := Executor.step_withMemory F signals p.executor source start target hok
  refine ⟨source, start', ?_⟩
  simp only [BytecodePlayer.stepToTarget, hstep]
  rfl

/-- The same step executes the same command. -/
theorem StepsDiffer.command_eq {s t : PlayerStep} (h : StepsDiffer s t) :
    t.command F signals = s.command F signals := by
  obtain ⟨⟨source, start, hplayer⟩, hnow⟩ := h
  rw [PlayerStep.command, PlayerStep.command, ← hnow, hplayer]
  exact Executor.executes_withMemory F signals s.player.executor source start s.now

/-- **A seek of both players** makes the same steps, if none of them uses the signal source. -/
theorem Differ.seek {p q : BytecodePlayer} (h : Differ p q) (fuel target : ℕ)
    (hok : ∀ s ∈ p.seekSteps F signals fuel target, s.LeavesSource F signals) :
    List.Forall₂ StepsDiffer (p.seekSteps F signals fuel target)
        (q.seekSteps F signals fuel target) ∧
      Option.Rel Differ (p.seek F signals fuel target) (q.seek F signals fuel target) := by
  have hcond : ∀ p q : BytecodePlayer, Differ p q → (Behind target p ↔ Behind target q) := by
    rintro p q ⟨source, start, rfl⟩
    exact Iff.rfl
  have hloop : ∀ r ∈ WhileLoop.trace (Behind target) (BytecodePlayer.stepToNext F signals) fuel
      (p.rewindIfNeeded target), PlayerStep.LeavesSource F signals ⟨r, r.nextTimestamp⟩ :=
    fun r hr => hok _ (List.mem_append_left _ (List.mem_map_of_mem hr))
  obtain ⟨htrace, hrun⟩ := WhileLoop.rel_run (R := Differ)
    (P := fun q => PlayerStep.LeavesSource F signals ⟨q, q.nextTimestamp⟩) hcond
    (fun p q hpq _ hokp => hpq.stepToNext hokp) (h.rewindIfNeeded target) hloop
  have hsteps : List.Forall₂ StepsDiffer
      ((WhileLoop.trace (Behind target) (BytecodePlayer.stepToNext F signals) fuel
        (p.rewindIfNeeded target)).map fun q => ⟨q, q.nextTimestamp⟩)
      ((WhileLoop.trace (Behind target) (BytecodePlayer.stepToNext F signals) fuel
        (q.rewindIfNeeded target)).map fun q => ⟨q, q.nextTimestamp⟩) := by
    rw [List.forall₂_map_left_iff, List.forall₂_map_right_iff]
    refine htrace.imp ?_
    rintro p q ⟨source, start, rfl⟩
    exact ⟨⟨source, start, rfl⟩, rfl⟩
  have hlast : ∀ r ∈ WhileLoop.run (Behind target) (BytecodePlayer.stepToNext F signals) fuel
      (p.rewindIfNeeded target), PlayerStep.LeavesSource F signals ⟨r, target⟩ := fun r hr =>
    hok _ (List.mem_append_right _ (List.mem_map.mpr ⟨r, Option.mem_toList.mpr hr, rfl⟩))
  rw [seekSteps, seekSteps, BytecodePlayer.seek, BytecodePlayer.seek]
  generalize WhileLoop.run (Behind target) (BytecodePlayer.stepToNext F signals) fuel
    (p.rewindIfNeeded target) = a at hrun hlast ⊢
  generalize WhileLoop.run (Behind target) (BytecodePlayer.stepToNext F signals) fuel
    (q.rewindIfNeeded target) = b at hrun ⊢
  cases hrun with
  | none => exact ⟨by simpa using hsteps, .none⟩
  | some hab =>
      exact ⟨List.rel_append hsteps (.cons ⟨hab, rfl⟩ .nil), .some (hab.stepToTarget (hlast _ rfl))⟩

/-- What a call returns does not depend on the fields in which the players differ. -/
theorem Differ.run {p q : BytecodePlayer} (h : Differ p q) (fuel : ℕ) (call : LightPlayerCall)
    (hok : ∀ s ∈ p.seekSteps F signals fuel call.timestamp.toNat, s.LeavesSource F signals) :
    Option.Rel (fun a b => b.1 = a.1 ∧ Differ a.2 b.2) (call.run F signals fuel p)
      (call.run F signals fuel q) := by
  have hseek := (h.seek fuel call.timestamp.toNat hok).2
  cases call with
  | seek timestamp | getColorAt timestamp | getPyroChannelsAt timestamp =>
      simp only [LightPlayerCall.timestamp] at hseek
      simp only [LightPlayerCall.run]
      generalize BytecodePlayer.seek F signals fuel p timestamp.toNat = a at hseek ⊢
      generalize BytecodePlayer.seek F signals fuel q timestamp.toNat = b at hseek ⊢
      cases hseek with
      | none => exact .none
      | some hab =>
          obtain ⟨source, start, rfl⟩ := hab
          exact .some ⟨rfl, source, start, rfl⟩

/-- **A sequence of calls on both players** makes the same steps, returns the same results
and leaves two such players, if no step of one of them uses the signal source. -/
theorem steps_differ {p q : BytecodePlayer} (h : Differ p q) (fuel : ℕ)
    (calls : List LightPlayerCall)
    (hok : ∀ s ∈ p.steps F signals fuel calls, s.LeavesSource F signals) :
    List.Forall₂ StepsDiffer (p.steps F signals fuel calls) (q.steps F signals fuel calls) ∧
      lightPlayerResults F signals fuel q calls = lightPlayerResults F signals fuel p calls ∧
      Option.Rel Differ (lightPlayerAfter F signals fuel p calls)
        (lightPlayerAfter F signals fuel q calls) := by
  induction calls generalizing p q with
  | nil => exact ⟨.nil, rfl, .some h⟩
  | cons call calls ih =>
      have hfirst : ∀ s ∈ p.seekSteps F signals fuel call.timestamp.toNat,
          s.LeavesSource F signals := fun s hs => hok s (List.mem_append_left _ hs)
      have hmore : ∀ r ∈ p.seek F signals fuel call.timestamp.toNat,
          ∀ s ∈ r.steps F signals fuel calls, s.LeavesSource F signals := fun r hr s hs =>
        hok s (List.mem_append_right _ (List.mem_flatMap.mpr ⟨r, Option.mem_toList.mpr hr, hs⟩))
      have hseek := (h.seek fuel call.timestamp.toNat hfirst).1
      have hrun := h.run fuel call hfirst
      rw [steps, steps, lightPlayerResults, lightPlayerResults, lightPlayerAfter, lightPlayerAfter]
      rw [← LightPlayerCall.map_snd_run] at hmore ⊢
      rw [← LightPlayerCall.map_snd_run F signals fuel q]
      generalize call.run F signals fuel p = a at hrun hmore ⊢
      generalize call.run F signals fuel q = b at hrun ⊢
      cases hrun with
      | none => exact ⟨by simpa using hseek, rfl, .none⟩
      | @some a b hab =>
          obtain ⟨hresult, hplayers⟩ := hab
          obtain ⟨hsteps, hresults, hafter⟩ := ih hplayers (hmore a.2 rfl)
          refine ⟨List.rel_append hseek (by simpa using hsteps), ?_, hafter⟩
          simp only [Option.bind_some, hresult, hresults]

/-- Fresh players differ only in the fields that are never set. -/
theorem differ_lightPlayerInit (F : Rounding) (signals : Signals) (m m' : UninitMemory)
    (program : List UInt8) :
    Differ (lightPlayerInit F signals m program) (lightPlayerInit F signals m' program) :=
  ⟨m'.signalSource, m'.currentCommandStartTime, rfl⟩

end BytecodePlayer

/-- **What the uninitialised memory held cannot be observed, and no command uses a signal
source that was not set, exactly when the run in zeroed memory executes no command that
uses the signal source.** -/
theorem memory_unobservable_iff (F : Rounding) (signals : Signals) (program : List UInt8)
    (fuel : ℕ) (calls : List LightPlayerCall) :
    ((∀ m m', lightPlayerResults F signals fuel (lightPlayerInit F signals m program) calls =
        lightPlayerResults F signals fuel (lightPlayerInit F signals m' program) calls) ∧
      ∀ m, ∀ s ∈ (lightPlayerInit F signals m program).steps F signals fuel calls,
        s.LeavesSource F signals) ↔
      ∀ s ∈ (lightPlayerInit F signals .zero program).steps F signals fuel calls,
        s.LeavesSource F signals := by
  constructor
  · exact fun h => h.2 .zero
  · intro hzero
    have hsame : ∀ m, _ := fun m => BytecodePlayer.steps_differ
      (BytecodePlayer.differ_lightPlayerInit F signals .zero m program) fuel calls hzero
    refine ⟨fun m m' => (hsame m).2.1.trans (hsame m').2.1.symm, fun m s hs c hc => ?_⟩
    -- the same step of the run in zeroed memory executes the same command
    obtain ⟨hlength, hget⟩ := List.forall₂_iff_get.mp (hsame m).1
    obtain ⟨i, rfl⟩ := List.mem_iff_get.mp hs
    have hi := i.isLt.trans_eq hlength.symm
    exact hzero _ (List.get_mem _ ⟨i, hi⟩) c ((hget i hi i.isLt).command_eq ▸ hc)

/-- A program that shows three channels: black without a signal source, and whatever a
stray pointer leads to otherwise. -/
theorem stray_source_shown :
    let signals : Signals := fun _ => ⟨3, id, fun channel => channel + 1⟩
    let program : List UInt8 := [0x10, 0, 1, 2, 50, 0]
    lightPlayerResults .exact signals 10 (lightPlayerInit .exact signals .zero program)
        [.getColorAt 0] ≠
      lightPlayerResults .exact signals 10
        (lightPlayerInit .exact signals { UninitMemory.zero with signalSource := some 0 } program)
        [.getColorAt 0] := by
  decide +kernel

end Skybrush
