import Skybrush.LoopStackSafety

/-!
# Triggers under the Executor

The executor keeps one trigger for each channel that a program watches: a triggered jump
looks for the trigger of its channel, and takes a free one only if there is none. The
search compares channel numbers without asking whether a trigger is active, and a trigger
that is not active carries the number zero. So a free trigger is mistaken for the trigger
of channel zero when it stands before it, and the channel ends up with two triggers.

For the other channels, and for channel zero with no free trigger before its own, the
search finds the trigger of the channel, and the triggers stay apart.

## Main results

* `Executor.freeCarryZero_run`: a trigger that is not active carries channel zero.
* `Executor.findTriggerForChannelIndex_eq_some_iff`: what the search finds.
* `Executor.OneTriggerPerChannel.step`: a step whose triggered jump is not misled keeps the
  triggers apart.
* `triggers_apart_iff`: in a run, the triggers stay apart and every triggered jump acts on
  the trigger of its channel exactly when no triggered jump is misled.
-/

namespace Skybrush

namespace Trigger

/-- The trigger watches the channel. -/
def Watches (t : Trigger) (channelIndex : UInt8) : Prop :=
  t.active = true ∧ t.channelIndex = channelIndex

/-- The trigger is free, and carries the channel number that free triggers carry. -/
def Free (t : Trigger) : Prop := t.active = false ∧ t.channelIndex = 0

/-- What may happen to a trigger that is not set up: it watches what it watched, or it has
become free. -/
def KeptOrFreed (t t' : Trigger) : Prop :=
  (t'.active = t.active ∧ t'.channelIndex = t.channelIndex) ∨ t'.Free

theorem KeptOrFreed.refl (t : Trigger) : KeptOrFreed t t := .inl ⟨rfl, rfl⟩

/-- A trigger watches only what it watched before. -/
theorem KeptOrFreed.watches {t t' : Trigger} (h : KeptOrFreed t t') {channelIndex : UInt8}
    (hw : t'.Watches channelIndex) : t.Watches channelIndex := by
  obtain ⟨hactive, hchannel⟩ | ⟨hactive, -⟩ := h
  · exact ⟨hactive ▸ hw.1, hchannel ▸ hw.2⟩
  · rw [hw.1] at hactive
    cases hactive

theorem free_disable (t : Trigger) : t.disable.Free := ⟨rfl, rfl⟩

/-- Checking a trigger keeps what it watches, or frees it when it fires in one-shot mode. -/
theorem keptOrFreed_checkAndFireWhenNeeded (t : Trigger) (signals : Signals) (now : ℤ) :
    KeptOrFreed t (t.checkAndFireWhenNeeded signals now).2 := by
  simp only [checkAndFireWhenNeeded]
  split
  · exact .refl t
  · split
    · rw [fire]
      split
      · exact .inr (free_disable _)
      · exact .inl ⟨rfl, rfl⟩
    · exact .inl ⟨rfl, rfl⟩

/-- **Setting up a trigger** makes it watch the channel, or frees it. -/
theorem watchChannel_cases (t : Trigger) (signals : Signals) (source : SignalSourcePtr)
    (channelIndex : UInt8) (edge : TriggerEdge) :
    (t.watchChannel signals source channelIndex edge).Watches channelIndex ∨
      (t.watchChannel signals source channelIndex edge).Free := by
  cases source with
  | none => cases edge <;> exact .inr ⟨rfl, rfl⟩
  | some address =>
      by_cases hout : (signals address).numChannels ≤ channelIndex
      · simp only [watchChannel, Option.isSome_some, if_true, hout, decide_true]
        exact .inr (free_disable _)
      · simp only [watchChannel, Option.isSome_some, if_true, hout, decide_false, if_false,
          Bool.false_eq_true]
        cases edge with
        | none => exact .inr (free_disable _)
        | rising | falling | change => exact .inl ⟨rfl, rfl⟩

end Trigger

namespace Executor

variable (F : Rounding) (signals : Signals)

/-! ### The invariants -/

/-- Triggers that are not active carry channel zero. -/
def FreeCarryZero (e : Executor) : Prop :=
  ∀ i, (e.triggers i).active = false → (e.triggers i).channelIndex = 0

/-- No two active triggers watch the same channel. -/
def OneTriggerPerChannel (e : Executor) : Prop :=
  ∀ i j channelIndex, (e.triggers i).Watches channelIndex →
    (e.triggers j).Watches channelIndex → i = j

/-- A free trigger stays one that carries channel zero. -/
theorem FreeCarryZero.of_keptOrFreed {e e' : Executor} (h : e.FreeCarryZero)
    (hkept : ∀ i, Trigger.KeptOrFreed (e.triggers i) (e'.triggers i)) : e'.FreeCarryZero := by
  intro i hfree
  obtain ⟨hactive, hchannel⟩ | hfreed := hkept i
  · rw [hchannel]
    exact h i (hactive ▸ hfree)
  · exact hfreed.2

/-- Triggers that watch only what they watched before stay apart. -/
theorem OneTriggerPerChannel.of_keptOrFreed {e e' : Executor} (h : e.OneTriggerPerChannel)
    (hkept : ∀ i, Trigger.KeptOrFreed (e.triggers i) (e'.triggers i)) :
    e'.OneTriggerPerChannel := by
  intro i j channelIndex hi hj
  exact h i j channelIndex ((hkept i).watches hi) ((hkept j).watches hj)

/-! ### Checking the triggers -/

theorem triggers_checkAndFireTrigger (now : ℕ) (e : Executor) (i : Fin maxTriggerCount) :
    (checkAndFireTrigger signals now e i).triggers = Function.update e.triggers i
      ((e.triggers i).checkAndFireWhenNeeded signals (toSigned now)).2 := by
  simp only [checkAndFireTrigger, executeActionOfTrigger]
  split
  · split <;> rfl
  · rfl

/-- **Checking the triggers** checks each of them once. -/
theorem triggers_checkAndFireTriggers (e : Executor) (now : ℕ) (i : Fin maxTriggerCount) :
    (e.checkAndFireTriggers signals now).triggers i =
      ((e.triggers i).checkAndFireWhenNeeded signals (toSigned now)).2 := by
  have hfold : ∀ (indices : List (Fin maxTriggerCount)) (e : Executor), indices.Nodup →
      (indices.foldl (checkAndFireTrigger signals now) e).triggers i =
        if i ∈ indices then ((e.triggers i).checkAndFireWhenNeeded signals (toSigned now)).2
        else e.triggers i := by
    intro indices
    induction indices with
    | nil => exact fun e _ => rfl
    | cons k indices ih =>
        intro e hnodup
        obtain ⟨hk, hnodup⟩ := List.nodup_cons.mp hnodup
        rw [List.foldl_cons, ih _ hnodup, triggers_checkAndFireTrigger]
        rcases eq_or_ne i k with rfl | hne
        · rw [if_neg hk, if_pos (List.mem_cons_self ..), Function.update_self]
        · simp only [Function.update_of_ne hne, List.mem_cons, hne, false_or]
  rw [checkAndFireTriggers, hfold _ e (List.nodup_finRange _), if_pos (List.mem_finRange i)]

/-- Checking the triggers sets up none. -/
theorem keptOrFreed_checkAndFireTriggers (e : Executor) (now : ℕ) (i : Fin maxTriggerCount) :
    Trigger.KeptOrFreed (e.triggers i) ((e.checkAndFireTriggers signals now).triggers i) := by
  rw [triggers_checkAndFireTriggers]
  exact Trigger.keptOrFreed_checkAndFireWhenNeeded _ _ _

theorem triggers_handleResetClockFlag (e : Executor) (now : ℕ) :
    (e.handleResetClockFlag F now).triggers = e.triggers := by
  simp only [handleResetClockFlag]
  split <;> rfl

theorem triggers_handleActiveTransition (e : Executor) (now : ℕ) :
    (e.handleActiveTransition F now).triggers = e.triggers := by
  obtain ⟨color, transition, handler, hframe⟩ := handleActiveTransition_frame F e now
  rw [hframe]

/-- What comes before the next command sets up no trigger. -/
theorem keptOrFreed_prepare (e : Executor) (now : ℕ) (i : Fin maxTriggerCount) :
    Trigger.KeptOrFreed (e.triggers i) ((e.prepare F signals now).triggers i) := by
  have hkept := keptOrFreed_checkAndFireTriggers signals (e.handleResetClockFlag F now) now i
  rw [triggers_handleResetClockFlag] at hkept
  simpa only [prepare, triggers_handleActiveTransition] using hkept

/-! ### Finding the trigger of a channel -/

/-- **What the search finds**: the first trigger that carries the channel number, or the
first free one if there is none. -/
theorem findTriggerForChannelIndex_eq_some_iff (e : Executor) (channelIndex : UInt8)
    (i : Fin maxTriggerCount) :
    e.findTriggerForChannelIndex channelIndex = some i ↔
      ((e.triggers i).channelIndex = channelIndex ∧
          ∀ j < i, (e.triggers j).channelIndex ≠ channelIndex) ∨
        ((∀ j, (e.triggers j).channelIndex ≠ channelIndex) ∧ (e.triggers i).active = false ∧
          ∀ j < i, (e.triggers j).active = true) := by
  simp only [findTriggerForChannelIndex, ← Fin.find?_eq_find?_finRange, Option.or_eq_some_iff,
    Fin.find?_eq_some_iff, Fin.find?_eq_none_iff, decide_eq_true_eq, decide_eq_false_iff_not,
    Bool.not_eq_true', Bool.not_eq_false']

/-- The search finds the trigger of a channel, unless a free trigger before it carries the
number of the channel as well. -/
theorem findTriggerForChannelIndex_eq_some_of_watches {e : Executor} (happ : e.OneTriggerPerChannel)
    {channelIndex : UInt8} {i : Fin maxTriggerCount} (hi : (e.triggers i).Watches channelIndex) :
    e.findTriggerForChannelIndex channelIndex = some i ↔
      ∀ j < i, (e.triggers j).active = false → (e.triggers j).channelIndex ≠ channelIndex := by
  rw [findTriggerForChannelIndex_eq_some_iff]
  constructor
  · rintro (⟨-, hfirst⟩ | ⟨hnone, -⟩) j hj -
    · exact hfirst j hj
    · exact hnone j
  · refine fun hfree => .inl ⟨hi.2, fun j hj hchannel => ?_⟩
    cases hactive : (e.triggers j).active with
    | false => exact hfree j hj hactive hchannel
    | true => exact hj.ne (happ j i channelIndex ⟨hactive, hchannel⟩ hi)

/-! ### Setting up a trigger -/

/-- A triggered jump touches at most the trigger that it finds; that one watches the channel
of the jump then, or is free. -/
theorem triggers_setUpTrigger (e : Executor) (triggerParams : UInt8) (address : ℕ) :
    (e.setUpTrigger signals triggerParams address).triggers = e.triggers ∨
      ∃ i t, e.findTriggerForChannelIndex (triggerParams &&& 0x0F) = some i ∧
        (e.setUpTrigger signals triggerParams address).triggers =
          Function.update e.triggers i t ∧
        (t.Watches (triggerParams &&& 0x0F) ∨ t.Free) := by
  have hsame : ∀ e' : Executor, e'.triggers = e.triggers →
      e'.findTriggerForChannelIndex (triggerParams &&& 0x0F) =
        e.findTriggerForChannelIndex (triggerParams &&& 0x0F) := by
    intro e' h
    simp only [findTriggerForChannelIndex, h]
  have hchecked : ∀ p : Prop, [Decidable p] →
      (if p then (e.setError .invalidAddress).stop else e).triggers = e.triggers := by
    intro p _
    split <;> rfl
  cases hfind : e.findTriggerForChannelIndex (triggerParams &&& 0x0F) with
  | none =>
      left
      rw [setUpTrigger, hsame _ (hchecked _), hfind]
      exact hchecked _
  | some i =>
      right
      rw [setUpTrigger, hsame _ (hchecked _), hfind]
      simp only [hchecked]
      refine ⟨i, _, rfl, rfl, ?_⟩
      split
      · exact Trigger.watchChannel_cases _ _ _ _ _
      · exact Trigger.watchChannel_cases _ _ _ _ _

/-- Only a triggered jump touches the triggers. -/
theorem triggers_perform (e : Executor) (c : Command) :
    (e.perform F signals c).triggers = e.triggers ∨
      ∃ triggerParams address, c = .triggeredJump triggerParams address := by
  cases c with
  | triggeredJump triggerParams address => exact .inr ⟨triggerParams, address, rfl⟩
  | jump address =>
      left
      simp only [perform, jumpTo]
      split <;> rfl
  | loopBegin iterations =>
      left
      simp only [perform, beginLoop]
      split <;> rfl
  | loopEnd =>
      left
      simp only [perform, handleLoopEndCommand]
      split <;> rfl
  | setColorFromChannels channels duration | fadeToColorFromChannels channels duration =>
      left
      obtain ⟨error, hframe⟩ := colorFromChannels_frame signals e channels
      simp only [perform, hframe]
      rfl
  | _ => exact .inl rfl

/-! ### Steps -/

/-- **What a step does to the triggers**: it frees some of them, and then sets up at most
one, which its triggered jump has found. -/
theorem triggers_step (e : Executor) (now : ℕ) :
    (∀ i, Trigger.KeptOrFreed (e.triggers i) ((e.step F signals now).triggers i)) ∨
      ∃ triggerParams address i t,
        e.executes F signals now = some (.triggeredJump triggerParams address) ∧
        (e.prepare F signals now).findTriggerForChannelIndex (triggerParams &&& 0x0F) = some i ∧
        (e.step F signals now).triggers =
          Function.update (e.prepare F signals now).triggers i t ∧
        (t.Watches (triggerParams &&& 0x0F) ∨ t.Free) := by
  have hprep := keptOrFreed_prepare F signals e now
  have hcase := step_cases F signals e now
  generalize e.step F signals now = e' at hcase ⊢
  cases hcase with
  | ended =>
      left
      rw [triggers_handleResetClockFlag]
      exact fun i => .refl _
  | idle => exact .inl hprep
  | noStore => exact .inl hprep
  | perform s hended hdue hstore =>
      rcases triggers_perform F signals ((e.prepare F signals now).withStore s.fetch.2) s.fetch.1
        with hsame | ⟨triggerParams, address, hc⟩
      · exact .inl (hsame ▸ hprep)
      · rw [hc]
        rcases triggers_setUpTrigger signals ((e.prepare F signals now).withStore s.fetch.2)
          triggerParams address.toNat with hsame | ⟨i, t, hfind, hupdate, ht⟩
        · exact .inl (hsame ▸ hprep)
        · refine .inr ⟨triggerParams, address, i, t, ?_, hfind, hupdate, ht⟩
          rw [executes_of_due F signals hended hdue hstore, hc]

/-- A step leaves the triggers that are not active with channel zero. -/
theorem FreeCarryZero.step {e : Executor} (h : e.FreeCarryZero) (now : ℕ) :
    (e.step F signals now).FreeCarryZero := by
  obtain hkept | ⟨triggerParams, address, i, t, -, -, hupdate, ht⟩ :=
    triggers_step F signals e now
  · exact h.of_keptOrFreed hkept
  · intro j hfree
    rw [hupdate] at hfree ⊢
    rcases eq_or_ne j i with rfl | hne
    · rw [Function.update_self] at hfree ⊢
      obtain ⟨hactive, -⟩ | ⟨-, hchannel⟩ := ht
      · rw [hactive] at hfree
        cases hfree
      · exact hchannel
    · rw [Function.update_of_ne hne] at hfree ⊢
      exact h.of_keptOrFreed (keptOrFreed_prepare F signals e now) j hfree

/-- A triggered jump that the step executes acts on the trigger of its channel, if the
channel has one. -/
def ActsOnItsTrigger (e : Executor) (now : ℕ) : Prop :=
  ∀ triggerParams address,
    e.executes F signals now = some (.triggeredJump triggerParams address) →
    ∀ i, ((e.prepare F signals now).triggers i).Watches (triggerParams &&& 0x0F) →
      (e.prepare F signals now).findTriggerForChannelIndex (triggerParams &&& 0x0F) = some i

/-- No triggered jump for channel zero is executed while a free trigger stands before the
trigger of channel zero. -/
def NotMisled (e : Executor) (now : ℕ) : Prop :=
  ∀ triggerParams address,
    e.executes F signals now = some (.triggeredJump triggerParams address) →
    triggerParams &&& 0x0F = 0 →
    ∀ i, ((e.prepare F signals now).triggers i).Watches 0 →
      ∀ j < i, ((e.prepare F signals now).triggers j).active = true

/-- **The defect of a step.** With the triggers apart, a triggered jump acts on the trigger
of its channel exactly when it is not misled. -/
theorem actsOnItsTrigger_iff {e : Executor} (hzero : e.FreeCarryZero)
    (happ : e.OneTriggerPerChannel) (now : ℕ) :
    e.ActsOnItsTrigger F signals now ↔ e.NotMisled F signals now := by
  have hkept := keptOrFreed_prepare F signals e now
  have hzero' := hzero.of_keptOrFreed hkept
  have happ' := happ.of_keptOrFreed hkept
  constructor
  · intro hacts triggerParams address hexec hchannel i hi j hj
    have hfind := hacts triggerParams address hexec i (hchannel ▸ hi)
    rw [findTriggerForChannelIndex_eq_some_of_watches happ' (hchannel ▸ hi), hchannel] at hfind
    cases hactive : ((e.prepare F signals now).triggers j).active with
    | true => rfl
    | false => exact absurd (hzero' j hactive) (hfind j hj hactive)
  · intro hmis triggerParams address hexec i hi
    rw [findTriggerForChannelIndex_eq_some_of_watches happ' hi]
    intro j hj hfree hchannel
    have hnull : triggerParams &&& 0x0F = 0 := hchannel.symm.trans (hzero' j hfree)
    have hactive := hmis triggerParams address hexec hnull i (hnull ▸ hi) j hj
    rw [hfree] at hactive
    cases hactive

/-- **A step that is not misled** keeps the triggers apart. -/
theorem OneTriggerPerChannel.step {e : Executor} (happ : e.OneTriggerPerChannel) {now : ℕ}
    (hacts : e.ActsOnItsTrigger F signals now) :
    (e.step F signals now).OneTriggerPerChannel := by
  have happ' := happ.of_keptOrFreed (keptOrFreed_prepare F signals e now)
  obtain hkept | ⟨triggerParams, address, i, t, hexec, hfind, hupdate, ht⟩ :=
    triggers_step F signals e now
  · exact happ.of_keptOrFreed hkept
  · -- the trigger that the jump has found is the only one left for its channel
    have hothers : ∀ j, ((e.prepare F signals now).triggers j).Watches (triggerParams &&& 0x0F) →
        j = i := by
      intro j hj
      have hfind' := hacts triggerParams address hexec j hj
      exact Option.some.inj (hfind'.symm.trans hfind)
    have hnew : ∀ j channelIndex, j ≠ i →
        ((e.prepare F signals now).triggers j).Watches channelIndex →
        ¬ t.Watches channelIndex := by
      intro j channelIndex hne hj hwatch
      obtain ⟨-, hchannel⟩ | ⟨hfree, -⟩ := ht
      · exact hne (hothers j (by rwa [← hchannel, hwatch.2]))
      · rw [hwatch.1] at hfree
        cases hfree
    intro j k channelIndex hj hk
    rw [hupdate] at hj hk
    rcases eq_or_ne j i with rfl | hji <;> rcases eq_or_ne k j with rfl | hkj
    · rfl
    · rw [Function.update_self] at hj
      rw [Function.update_of_ne hkj] at hk
      exact absurd hj (hnew k channelIndex hkj hk)
    · rfl
    · rw [Function.update_of_ne hji] at hj
      rcases eq_or_ne k i with rfl | hki
      · rw [Function.update_self] at hk
        exact absurd hk (hnew j channelIndex hji hj)
      · rw [Function.update_of_ne hki] at hk
        exact happ' j k channelIndex hj hk

/-! ### Runs -/

theorem triggers_rewind (e : Executor) : e.rewind.triggers = e.triggers := by
  simp only [rewind]
  split <;> rfl

/-- Only a step touches the triggers. -/
theorem triggers_apply (e : Executor) (op : ExecutorOp) :
    (e.apply F op).triggers = e.triggers ∨
      ∃ signals now, op = .step signals now := by
  cases op with
  | step signals now => exact .inr ⟨signals, now, rfl⟩
  | setBytecodeStore s => exact .inl (triggers_rewind _)
  | rewind => exact .inl (triggers_rewind e)
  | setSignalSource source | setClockSkewCompensationFactor value => exact .inl rfl
  | stop => exact .inl rfl

theorem run_concat (e : Executor) (ops : List ExecutorOp) (op : ExecutorOp) :
    e.run F (ops ++ [op]) = (e.run F ops).apply F op := by
  simp only [run, List.foldl_append, List.foldl_cons, List.foldl_nil]

/-- The triggers of a constructed executor are free. -/
theorem triggers_construct (memory : UninitMemory) (i : Fin maxTriggerCount) :
    ((construct memory).triggers i).Free := ⟨rfl, rfl⟩

/-- **In every run**, triggers that are not active carry channel zero. -/
theorem freeCarryZero_run (memory : UninitMemory) (ops : List ExecutorOp) :
    ((construct memory).run F ops).FreeCarryZero := by
  induction ops using List.reverseRecOn with
  | nil => exact fun i _ => (triggers_construct memory i).2
  | append_singleton ops op ih =>
      rw [run_concat]
      rcases triggers_apply F ((construct memory).run F ops) op with hsame | ⟨signals, now, rfl⟩
      · simpa only [FreeCarryZero, hsame] using ih
      · exact ih.step F signals now

/-- **In a run that is never misled**, the triggers stay apart. -/
theorem oneTriggerPerChannel_run (memory : UninitMemory) (ops : List ExecutorOp)
    (hmis : ∀ pre signals now, pre ++ [ExecutorOp.step signals now] <+: ops →
      ((construct memory).run F pre).NotMisled F signals now) :
    ((construct memory).run F ops).OneTriggerPerChannel := by
  induction ops using List.reverseRecOn with
  | nil =>
      intro i j channelIndex hi
      have hfree := (triggers_construct memory i).1
      exact absurd (hi.1.symm.trans hfree) (by decide)
  | append_singleton ops op ih =>
      have happ := ih fun pre signals now hpre =>
        hmis pre signals now (hpre.trans (List.prefix_append ops [op]))
      rw [run_concat]
      rcases triggers_apply F ((construct memory).run F ops) op with hsame | ⟨signals, now, rfl⟩
      · simpa only [OneTriggerPerChannel, hsame] using happ
      · have hstep := hmis ops signals now (List.prefix_refl _)
        exact happ.step F signals
          ((actsOnItsTrigger_iff F signals (freeCarryZero_run F memory ops) happ now).mpr hstep)

end Executor

/-- **The triggers of a run stay apart, and every triggered jump acts on the trigger of its
channel, exactly when no triggered jump for channel zero is executed while a free trigger
stands before the trigger of channel zero.** -/
theorem triggers_apart_iff (F : Rounding) (memory : UninitMemory) (ops : List ExecutorOp) :
    ((∀ pre, pre <+: ops → ((Executor.construct memory).run F pre).OneTriggerPerChannel) ∧
      (∀ pre signals now, pre ++ [.step signals now] <+: ops →
        ((Executor.construct memory).run F pre).ActsOnItsTrigger F signals now)) ↔
      ∀ pre signals now, pre ++ [.step signals now] <+: ops →
        ((Executor.construct memory).run F pre).NotMisled F signals now := by
  constructor
  · rintro ⟨happ, hacts⟩ pre signals now hpre
    have hbefore := happ pre ((List.prefix_append pre _).trans hpre)
    exact (Executor.actsOnItsTrigger_iff F signals (Executor.freeCarryZero_run F memory pre)
      hbefore now).mp (hacts pre signals now hpre)
  · intro hmis
    have happ : ∀ pre, pre <+: ops →
        ((Executor.construct memory).run F pre).OneTriggerPerChannel := fun pre hpre =>
      Executor.oneTriggerPerChannel_run F memory pre fun pre' signals now hpre' =>
        hmis pre' signals now (hpre'.trans hpre)
    refine ⟨happ, fun pre signals now hpre => ?_⟩
    have hbefore := happ pre ((List.prefix_append pre _).trans hpre)
    exact (Executor.actsOnItsTrigger_iff F signals (Executor.freeCarryZero_run F memory pre)
      hbefore now).mpr (hmis pre signals now hpre)

/-- A program that sets up triggers for the channels 3 and 0, clears the one for channel 3,
and sets up the one for channel 0 again: both end up watching channel 0. -/
theorem reissued_trigger_doubled :
    ¬ ((Executor.construct .zero).run Rounding.exact
      (.setSignalSource (some 0) ::
        .setBytecodeStore
          (some (.ofArray [0x13, 0x23, 0, 0x13, 0x20, 0, 0x13, 0x03, 0x13, 0x20, 0])) ::
        List.replicate 4 (.step (fun _ => ⟨4, id, id⟩) 0))).OneTriggerPerChannel := by
  intro happ
  have hsame := happ ⟨0, by decide⟩ ⟨1, by decide⟩ 0 ⟨by decide +kernel, by decide +kernel⟩
    ⟨by decide +kernel, by decide +kernel⟩
  exact absurd hsame (by decide)

end Skybrush
