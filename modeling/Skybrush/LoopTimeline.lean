import Skybrush.LoopUnrolling
import Skybrush.Timeline

/-!
# Timelines of Programs with Loops

What a program with loops and clock resets is meant to show. Loop commands take no time, so
that a program has the timeline of its instructions with every loop body written out
(`Program.instructions`). A `Beat` is a moment together with the time at which the clock of the
program was reset, which is what a wait refers to.

A loop without end has no last instruction; up to any time it has the timeline of sufficiently
many iterations. Every iteration leaves the color and the pyro channels that the first one has
left, and takes the same time unless it waits on a clock that it does not reset.

## Main results

* `Score.Later.shownAt`: instructions that start later show the same, later.
* `Score.color_idem`, `Score.pyroChannels_idem`: instructions leave the same color and the same
  pyro channels when they are executed again.
* `EndlessCode.shownAt_iterated`: the timeline of a loop without end repeats itself.
-/

namespace Skybrush

/-! ### Beats -/

/-- A moment of a program, and the time at which its clock was reset. -/
structure Beat extends Moment where
  origin : ℕ
  deriving DecidableEq, Repr

/-- The start of a program. -/
def Beat.start : Beat := ⟨.start, 0⟩

namespace Instruction

/-- What the instruction shows does not depend on channels, and a fade takes time. -/
def IsPlayable (i : Instruction) : Prop :=
  i.code.usesChannels = false ∧ ∀ v ∈ i.fadeDuration, 0 < v.value

instance (i : Instruction) : Decidable i.IsPlayable :=
  inferInstanceAs (Decidable (_ ∧ ∀ v ∈ i.fadeDuration, 0 < v.value))

/-- The time at which an instruction that starts at `now` is over: a wait goes by the clock. -/
def stopOn (origin now : ℕ) : Instruction → ℕ
  | waitUntil v => max now (origin + 20 * v.value)
  | i => i.stop now

/-- The time at which the clock was reset, once an instruction has started at `now`. -/
def originOn (origin now : ℕ) : Instruction → ℕ
  | resetClock => now
  | _ => origin

/-- Instructions of which the first that has to do with the clock waits on it. -/
def needsClock : List Instruction → Bool
  | [] => false
  | resetClock :: _ => false
  | waitUntil _ :: _ => true
  | _ :: rest => needsClock rest

end Instruction

/-- The beat at which an instruction is over. -/
def Beat.after (b : Beat) (i : Instruction) : Beat where
  time := i.stopOn b.origin b.time
  color := i.target.getD b.color
  pyroChannels := i.pyroChannels b.pyroChannels
  origin := i.originOn b.origin b.time

theorem Beat.time_after (b : Beat) (i : Instruction) :
    (b.after i).time = i.stopOn b.origin b.time := rfl

/-- Unless it waits, an instruction is over when its moment is. -/
theorem Beat.toMoment_after {b : Beat} {i : Instruction}
    (h : i.stopOn b.origin b.time = i.stop b.time) :
    (b.after i).toMoment = b.toMoment.after i := by
  simp only [Beat.after, h, Moment.after]

/-! ### Scores -/

namespace Score

/-- What instructions that start at the beat `b` are meant to show at time `t`. -/
def shownAt (t : ℕ) (b : Beat) : List Instruction → RgbColor × UInt8
  | [] => b.shown
  | i :: rest =>
      if t < (b.after i).time then (b.during i t).shown else shownAt t (b.after i) rest

/-- The times at which the instructions start, and the next command behind them. -/
def starts (b : Beat) : List Instruction → List ℕ
  | [] => [b.time]
  | i :: rest => b.time :: starts (b.after i) rest

/-- The beat at which the last instruction is over. -/
def stop (b : Beat) (instructions : List Instruction) : Beat := instructions.foldl Beat.after b

/-- The time at which the last instruction is over. -/
def finish (b : Beat) (instructions : List Instruction) : ℕ := (stop b instructions).time

variable {b b' : Beat} {i : Instruction} {is js : List Instruction} {t d : ℕ}

theorem stop_cons (b : Beat) (i : Instruction) (is : List Instruction) :
    stop b (i :: is) = stop (b.after i) is := rfl

theorem stop_append (b : Beat) (is js : List Instruction) :
    stop b (is ++ js) = stop (stop b is) js := List.foldl_append ..

theorem finish_cons (b : Beat) (i : Instruction) (is : List Instruction) :
    finish b (i :: is) = finish (b.after i) is := rfl

theorem finish_append (b : Beat) (is js : List Instruction) :
    finish b (is ++ js) = finish (stop b is) js := congrArg (·.time) (stop_append b is js)

/-- No instruction is over before it starts. -/
theorem time_le_after (b : Beat) (i : Instruction) : b.time ≤ (b.after i).time := by
  cases i <;> simp only [Beat.after, Instruction.stopOn, Instruction.stop] <;> omega

/-- The clock is not reset ahead of time. -/
theorem origin_le_after (h : b.origin ≤ b.time) (i : Instruction) :
    (b.after i).origin ≤ (b.after i).time := by
  have hle := time_le_after b i
  cases i with
  | resetClock => exact hle
  | _ => exact h.trans hle

theorem time_le_finish (b : Beat) (is : List Instruction) : b.time ≤ finish b is := by
  induction is generalizing b with
  | nil => exact le_rfl
  | cons i is ih => exact (time_le_after b i).trans (ih (b.after i))

/-- What comes behind the instructions starts when they are over. -/
theorem mem_starts_append :
    t ∈ starts b (is ++ js) ↔ t ∈ starts b is ∨ t ∈ starts (stop b is) js := by
  induction is generalizing b with
  | nil =>
      have hfirst : ∀ c : Beat, c.time ∈ starts c js := fun c => by
        cases js <;> exact List.mem_cons_self ..
      rw [List.nil_append, starts, List.mem_singleton]
      constructor
      · exact Or.inr
      · rintro (rfl | h)
        · exact hfirst b
        · exact h
  | cons i is ih =>
      rw [List.cons_append, starts, starts, List.mem_cons, List.mem_cons, ih, stop_cons, or_assoc]

theorem time_mem_starts (b : Beat) (is : List Instruction) : b.time ∈ starts b is := by
  cases is <;> exact List.mem_cons_self ..

/-- Everything starts before it is over. -/
theorem le_finish_of_mem_starts (h : t ∈ starts b is) : t ≤ finish b is := by
  induction is generalizing b with
  | nil => exact (List.mem_singleton.1 h).le
  | cons i is ih =>
      rcases List.mem_cons.1 h with rfl | h
      · exact time_le_finish b (i :: is)
      · exact ih h

/-- Nothing starts before the first instruction. -/
theorem le_of_mem_starts (h : t ∈ starts b is) : b.time ≤ t := by
  induction is generalizing b with
  | nil => exact (List.mem_singleton.1 h).ge
  | cons i is ih =>
      rcases List.mem_cons.1 h with rfl | h
      · exact le_rfl
      · exact (time_le_after b i).trans (ih h)

/-- Once the first instructions are over, the others are shown. -/
theorem shownAt_append_of_le (h : finish b is ≤ t) :
    shownAt t b (is ++ js) = shownAt t (stop b is) js := by
  induction is generalizing b with
  | nil => rfl
  | cons i is ih =>
      rw [finish_cons] at h
      have hle : (b.after i).time ≤ t := (time_le_finish _ is).trans h
      rw [List.cons_append, shownAt, if_neg (not_lt.2 hle), ih h, stop_cons]

/-- Before the first instructions are over, the others do not matter. -/
theorem shownAt_append_of_lt (hstart : b.time ≤ t) (h : t < finish b is) :
    shownAt t b (is ++ js) = shownAt t b is := by
  induction is generalizing b with
  | nil => exact absurd h (not_lt.2 hstart)
  | cons i is ih =>
      rw [List.cons_append, shownAt, shownAt]
      split
      case isTrue => rfl
      case isFalse hle => exact ih (not_lt.1 hle) h

/-! ### The same, later -/

/-- The instructions start later by `d` at one beat than at another, and so does the clock, if
they wait on it. -/
structure Later (d : ℕ) (b b' : Beat) (is : List Instruction) : Prop where
  time : b'.time = b.time + d
  origin : b'.origin = b.origin + d ∨ Instruction.needsClock is = false

/-- What starts later is over later. -/
theorem Later.after (h : Later d b b' (i :: is)) : Later d (b.after i) (b'.after i) is := by
  obtain ⟨htime, horigin⟩ := h
  cases i with
  | waitUntil v =>
      have hclock : b'.origin = b.origin + d := horigin.resolve_right Bool.true_eq_false.mp
      refine ⟨?_, .inl hclock⟩
      simp only [Beat.after, Instruction.stopOn]
      omega
  | resetClock => exact ⟨htime, .inl htime⟩
  | nop | setPyro _ | setPyroAll _ => exact ⟨htime, horigin⟩
  | sleep v | setBlack v | setWhite v | fadeToBlack v | fadeToWhite v =>
      refine ⟨?_, horigin⟩
      simp only [Beat.after, Instruction.stopOn, Instruction.stop]
      omega
  | setGray _ v | fadeToGray _ v | setColor _ v | fadeToColor _ v =>
      refine ⟨?_, horigin⟩
      simp only [Beat.after, Instruction.stopOn, Instruction.stop]
      omega
  | setColorFromChannels _ v | fadeToColorFromChannels _ v =>
      refine ⟨?_, horigin⟩
      simp only [Beat.after, Instruction.stopOn, Instruction.stop]
      omega

theorem Later.finish (h : Later d b b' is) : finish b' is = finish b is + d := by
  induction is generalizing b b' with
  | nil => exact h.time
  | cons i is ih => exact ih h.after

theorem Later.starts (h : Later d b b' is) : starts b' is = (starts b is).map (· + d) := by
  induction is generalizing b b' with
  | nil => exact congrArg (fun time => [time]) h.time
  | cons i is ih => rw [Score.starts, Score.starts, List.map_cons, h.time, ih h.after]

/-- **Instructions that start later** from the same color and with the same pyro channels show
the same, later. -/
theorem Later.shownAt (h : Later d b b' is) (hcolor : b'.color = b.color)
    (hpyro : b'.pyroChannels = b.pyroChannels) :
    shownAt (t + d) b' is = shownAt t b is := by
  induction is generalizing b b' with
  | nil => rw [Score.shownAt, Score.shownAt, Moment.shown, Moment.shown, hcolor, hpyro]
  | cons i is ih =>
      have hduring : (b'.during i (t + d)).shown = (b.during i t).shown := by
        simp only [Moment.shown, Moment.during, hcolor, hpyro, h.time, Nat.add_sub_add_right]
      have hafter := h.after
      have hlt : t + d < (b'.after i).time ↔ t < (b.after i).time := by
        rw [hafter.time, Nat.add_lt_add_iff_right]
      have hrest := ih hafter (by simp only [Beat.after, hcolor]) (by simp only [Beat.after, hpyro])
      simp only [Score.shownAt, hlt, hduring, hrest]

/-! ### Once more -/

/-- The last color that is set or faded to. -/
def lastTarget : List Instruction → Option RgbColor
  | [] => none
  | i :: is => (lastTarget is).or i.target

/-- Instructions leave the last color that they set or fade to. -/
theorem color_stop (b : Beat) (is : List Instruction) :
    (stop b is).color = (lastTarget is).getD b.color := by
  induction is generalizing b with
  | nil => rfl
  | cons i is ih =>
      rw [stop_cons, ih, lastTarget]
      cases lastTarget is with
      | none => rfl
      | some color => rfl

/-- **Executed again**, instructions leave the same color. -/
theorem color_idem (b : Beat) (is : List Instruction) :
    (stop (stop b is) is).color = (stop b is).color := by
  rw [color_stop, color_stop]
  cases lastTarget is <;> rfl

/-- Some channels are kept, some are switched on, twice. -/
theorem keep_keep (channels kept on kept' on' : UInt8) :
    (channels &&& kept ||| on) &&& kept' ||| on' =
      channels &&& (kept &&& kept') ||| (on &&& kept' ||| on') := by
  apply UInt8.toBitVec_inj.1
  simp only [UInt8.toBitVec_or, UInt8.toBitVec_and]
  ext i
  simp only [BitVec.getElem_or, BitVec.getElem_and, Bool.and_or_distrib_right, Bool.and_assoc,
    Bool.or_assoc]

/-- An instruction keeps some pyro channels, switches some on, and switches the others off. -/
theorem exists_pyroChannels (i : Instruction) :
    ∃ kept on : UInt8, ∀ channels, i.pyroChannels channels = channels &&& kept ||| on := by
  have hsame : ∀ channels : UInt8, channels = channels &&& -1 ||| 0 := fun channels => by simp
  cases i with
  | setPyro mask =>
      cases hon : mask &&& 128 != 0 with
      | true =>
          refine ⟨-1, mask &&& 127, fun channels => ?_⟩
          rw [Instruction.pyroChannels, if_pos hon, UInt8.and_neg_one]
      | false =>
          refine ⟨~~~(mask ||| 128), 0, fun channels => ?_⟩
          rw [Instruction.pyroChannels, hon, if_neg Bool.false_ne_true, UInt8.or_zero]
  | setPyroAll values =>
      refine ⟨0, values &&& 127, fun channels => ?_⟩
      rw [Instruction.pyroChannels, UInt8.and_zero, UInt8.zero_or]
  | nop | sleep _ | waitUntil _ | resetClock => exact ⟨-1, 0, hsame⟩
  | setBlack _ | setWhite _ | setGray _ _ | setColor _ _ => exact ⟨-1, 0, hsame⟩
  | fadeToBlack _ | fadeToWhite _ | fadeToGray _ _ | fadeToColor _ _ => exact ⟨-1, 0, hsame⟩
  | setColorFromChannels _ _ | fadeToColorFromChannels _ _ => exact ⟨-1, 0, hsame⟩

/-- So do instructions together. -/
theorem exists_pyroChannels_stop (is : List Instruction) :
    ∃ kept on : UInt8, ∀ b, (stop b is).pyroChannels = b.pyroChannels &&& kept ||| on := by
  induction is with
  | nil => exact ⟨-1, 0, fun b => by rw [UInt8.and_neg_one, UInt8.or_zero]; rfl⟩
  | cons i is ih =>
      obtain ⟨kept, on, hfirst⟩ := exists_pyroChannels i
      obtain ⟨kept', on', hrest⟩ := ih
      refine ⟨kept &&& kept', on &&& kept' ||| on', fun b => ?_⟩
      have hafter : (b.after i).pyroChannels = b.pyroChannels &&& kept ||| on := hfirst _
      rw [stop_cons, hrest, hafter, keep_keep]

/-- **Executed again**, instructions leave the same pyro channels. -/
theorem pyroChannels_idem (b : Beat) (is : List Instruction) :
    (stop (stop b is) is).pyroChannels = (stop b is).pyroChannels := by
  obtain ⟨kept, on, h⟩ := exists_pyroChannels_stop is
  have habsorb : on &&& kept ||| on = on := by
    apply UInt8.toBitVec_inj.1
    simp only [UInt8.toBitVec_or, UInt8.toBitVec_and]
    ext i
    simp only [BitVec.getElem_or, BitVec.getElem_and]
    cases on.toBitVec[i] <;> simp
  rw [h, h, keep_keep, UInt8.and_self, habsorb]

end Score

/-! ### Programs with loops -/

/-- The instructions of a program, with every loop body written out. -/
def Program.instructions : Program → List Instruction
  | nil => []
  | instruction i rest => i :: rest.instructions
  | loop n body rest =>
      (List.replicate n.val.toNat body.instructions).flatten ++ rest.instructions

/-- Their commands are those of the program unrolled. -/
theorem Program.map_command_instructions (p : Program) :
    p.instructions.map Instruction.command = p.unrolled := by
  induction p with
  | nil => rfl
  | instruction i rest ih => rw [instructions, List.map_cons, ih, unrolled]
  | loop n body rest ihbody ihrest =>
      rw [instructions, List.map_append, List.map_flatten, List.map_replicate, ihbody, ihrest,
        unrolled]

theorem Instruction.needsClock_append {is js : List Instruction} (his : needsClock is = false)
    (hjs : needsClock js = false) : needsClock (is ++ js) = false := by
  induction is with
  | nil => exact hjs
  | cons i is ih =>
      cases i with
      | waitUntil v => cases his
      | resetClock => rfl
      | _ => exact ih his

/-- The code of a program that ends in a loop without end. What stands behind the loop is never
executed. -/
structure EndlessCode where
  prelude : Program
  body : Program
  tail : List UInt8
  depth_prelude : prelude.depth ≤ maxLoopDepth
  depth_body : body.depth + 1 ≤ maxLoopDepth
  length_le : (prelude.bytes ++ CommandCode.loopBegin.toByte :: 0 :: body.bytes ++
    CommandCode.loopEnd.toByte :: tail).length ≤ 65535

namespace EndlessCode

variable (code : EndlessCode)

/-- The bytes of the code. -/
def bytes : List UInt8 :=
  code.prelude.bytes ++ CommandCode.loopBegin.toByte :: 0 :: code.body.bytes ++
    CommandCode.loopEnd.toByte :: code.tail

/-- The instructions up to the end of an iteration. -/
def iterated (k : ℕ) : List Instruction :=
  code.prelude.instructions ++ (List.replicate k code.body.instructions).flatten

/-- The duration of an iteration. -/
def period : ℕ := Score.finish .start code.body.instructions

/-- The loop does not wait on a clock that it does not reset. -/
def KeepsTime : Prop := Instruction.needsClock code.body.instructions = false

theorem iterated_add (j k : ℕ) :
    code.iterated (j + k) =
      code.iterated j ++ (List.replicate k code.body.instructions).flatten := by
  rw [iterated, iterated, List.replicate_add, List.flatten_append, List.append_assoc]

theorem iterated_succ (k : ℕ) :
    code.iterated (k + 1) = code.iterated k ++ code.body.instructions := by
  rw [iterated_add, List.replicate_one, List.flatten_singleton]

variable {code}

/-- The first iteration has all the instructions. -/
theorem mem_iterated_one {k : ℕ} {i : Instruction} (h : i ∈ code.iterated k) :
    i ∈ code.iterated 1 := by
  rw [iterated_succ, iterated, List.replicate_zero, List.flatten_nil, List.append_nil]
  rw [iterated] at h
  rcases List.mem_append.1 h with h | h
  · exact List.mem_append_left _ h
  · obtain ⟨is, his, hi⟩ := List.mem_flatten.1 h
    rw [List.eq_of_mem_replicate his] at hi
    exact List.mem_append_right _ hi

/-- What starts before the end of an iteration does not start in a later one. -/
theorem mem_starts_of_lt {t j k : ℕ} (h : t ∈ Score.starts .start (code.iterated j))
    (ht : t < Score.finish .start (code.iterated k)) :
    t ∈ Score.starts .start (code.iterated k) := by
  rcases Nat.le_total j k with hle | hle
  · obtain ⟨n, rfl⟩ := Nat.exists_eq_add_of_le hle
    rw [iterated_add, Score.mem_starts_append]
    exact .inl h
  · obtain ⟨n, rfl⟩ := Nat.exists_eq_add_of_le hle
    rw [iterated_add, Score.mem_starts_append] at h
    exact h.resolve_right fun hlater => absurd ht (not_lt.2 (Score.le_of_mem_starts hlater))

section Clock

variable (hclock : code.KeepsTime)
include hclock

/-- **Every iteration** takes the same time. -/
theorem finish_iterated_succ (k : ℕ) :
    Score.finish .start (code.iterated (k + 1)) =
      Score.finish .start (code.iterated k) + code.period := by
  have hlater : Score.Later (Score.stop .start (code.iterated k)).time .start
      (Score.stop .start (code.iterated k)) code.body.instructions :=
    ⟨(Nat.zero_add _).symm, .inr hclock⟩
  rw [iterated_succ, Score.finish_append, hlater.finish, Nat.add_comm]
  rfl

theorem finish_iterated (k : ℕ) :
    Score.finish .start (code.iterated k) =
      Score.finish .start (code.iterated 0) + k * code.period := by
  induction k with
  | zero => rw [Nat.zero_mul, Nat.add_zero]
  | succ k ih => rw [finish_iterated_succ hclock, ih, Nat.add_assoc, Nat.succ_mul]

/-- **There are enough iterations** for every time, and not many more. -/
theorem exists_lt_finish_iterated (hperiod : 0 < code.period) (t : ℕ) :
    ∃ k, t < Score.finish .start (code.iterated k) ∧
      Score.finish .start (code.iterated k) ≤
        max (Score.finish .start (code.iterated 0)) (t + code.period) := by
  have henough : ∃ k, t < Score.finish .start (code.iterated k) := by
    refine ⟨t + 1, ?_⟩
    rw [finish_iterated hclock]
    have := Nat.le_mul_of_pos_right (t + 1) hperiod
    omega
  classical
  refine ⟨Nat.find henough, Nat.find_spec henough, ?_⟩
  cases hk : Nat.find henough with
  | zero => exact le_max_left _ _
  | succ k =>
      have hlt : k < Nat.find henough := by
        rw [hk]
        exact Nat.lt_succ_self k
      have hle := not_lt.1 (Nat.find_min henough hlt)
      rw [finish_iterated_succ hclock]
      exact (Nat.add_le_add_right hle _).trans (le_max_right _ _)

/-- The second iteration starts later than the first one is over, by a period. -/
theorem later_iterated (k : ℕ) :
    Score.Later code.period (Score.stop .start (code.iterated 1))
      (Score.stop .start (code.iterated 2))
      (List.replicate k code.body.instructions).flatten := by
  refine ⟨finish_iterated_succ hclock 1, .inr ?_⟩
  induction k with
  | zero => rfl
  | succ k ih =>
      rw [List.replicate_succ, List.flatten_cons]
      exact Instruction.needsClock_append hclock ih

/-- **From the second iteration on**, the timeline repeats itself. -/
theorem shownAt_iterated {t : ℕ} (ht : Score.finish .start (code.iterated 1) ≤ t) (k : ℕ) :
    Score.shownAt (t + code.period) .start (code.iterated (k + 2)) =
      Score.shownAt t .start (code.iterated (k + 1)) := by
  have hlater := later_iterated hclock k
  have hsecond : Score.finish .start (code.iterated 2) ≤ t + code.period := by
    rw [finish_iterated_succ hclock]
    exact Nat.add_le_add_right ht _
  have hsame : Score.stop .start (code.iterated 2) =
      Score.stop (Score.stop .start (code.iterated 1)) code.body.instructions := by
    rw [iterated_succ code 1, Score.stop_append]
  have hfirst : Score.stop .start (code.iterated 1) =
      Score.stop (Score.stop .start (code.iterated 0)) code.body.instructions := by
    rw [iterated_succ code 0, Score.stop_append]
  rw [Nat.add_comm k, Nat.add_comm k, iterated_add, iterated_add,
    Score.shownAt_append_of_le hsecond, Score.shownAt_append_of_le ht]
  refine hlater.shownAt ?_ ?_
  · rw [hsame, hfirst, Score.color_idem]
  · rw [hsame, hfirst, Score.pyroChannels_idem]

/-- So do the times at which instructions start. -/
theorem mem_starts_iterated {t : ℕ} (ht : Score.finish .start (code.iterated 1) ≤ t) {k : ℕ}
    (h : t + code.period ∈ Score.starts .start (code.iterated (k + 2))) :
    t ∈ Score.starts .start (code.iterated (k + 1)) := by
  rw [Nat.add_comm k, iterated_add, Score.mem_starts_append] at h ⊢
  rcases h with h | h
  · have hle := Score.le_finish_of_mem_starts h
    rw [finish_iterated_succ hclock, Nat.add_le_add_iff_right] at hle
    obtain rfl := hle.antisymm ht
    exact .inr (Score.time_mem_starts _ _)
  · rw [(later_iterated hclock k).starts] at h
    obtain ⟨t', ht', heq⟩ := List.mem_map.1 h
    obtain rfl : t' = t := by omega
    exact .inr ht'

end Clock

end EndlessCode

end Skybrush
