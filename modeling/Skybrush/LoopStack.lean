import Mathlib.Logic.Function.Basic
import Mathlib.Tactic.Common

/-!
# The Loop Stack

The bytecode executor keeps its open loops on a `LoopStack`: an array `m_items` of
`CONFIG_MAX_LOOP_DEPTH` items, a counter, and a raw pointer to the topmost item, null when
no loop is open. The model keeps the pointer arithmetic. `topItem` is the index of the
topmost item, `items` is the memory from `m_items` on — the array proper is the cells
below `maxLoopDepth`, and a cell beyond them is memory that keeps what is written there —
and `touched` records the index of every item that is read or written, so that staying
inside the array is a statement about the model.

What the component is for is `OpenLoops`: the list of the open loops, innermost first,
of a bounded length. The stack refines it.

## Main results

* `LoopStack.openLoops_begin`, `LoopStack.openLoops_end_`: the stack refines `OpenLoops`
  — with room for **five** loops, since the fullness test compares the pointer to the
  topmost item, not to the next free one, with the end of the array.
* `LoopStack.Bounded.begin`, `LoopStack.Bounded.end_`, `LoopStack.Bounded.size_eq`: never
  more than five items are open, and `size()` is their number.
* `LoopStack.Agrees.run`: as long as no loop is begun while four are open, the stack
  behaves as a stack of at most four loops and stays inside its array.
-/

namespace Skybrush

/-- `CONFIG_MAX_LOOP_DEPTH`: the number of items in the array of the loop stack. -/
def maxLoopDepth : ℕ := 4

/-- One open loop: the first instruction of its body, and the number of iterations left
plus one, or zero for an infinite loop. -/
structure LoopStackItem where
  start : ℕ
  iterationsLeftPlusOne : UInt8
  deriving DecidableEq, Repr, Inhabited

/-- The loop stack. `touched` is a record of the accessed items, kept by the model only. -/
structure LoopStack where
  items : ℕ → LoopStackItem
  numLoops : UInt8
  topItem : Option ℕ
  touched : List ℕ

namespace LoopStack

/-- Remove all the items: `LoopStack::clear`. -/
def clear (s : LoopStack) : LoopStack :=
  { s with topItem := none, numLoops := 0 }

/-- The constructed, empty loop stack. -/
def empty : LoopStack :=
  { items := fun _ => ⟨0, 0⟩, numLoops := 0, topItem := none, touched := [] }

/-- The fullness test `m_pTopItem >= m_items + CONFIG_MAX_LOOP_DEPTH`; a null pointer is
below every item. -/
def isFull (s : LoopStack) : Bool :=
  match s.topItem with
  | none => false
  | some i => decide (maxLoopDepth ≤ i)

/-- Begin a loop: `LoopStack::begin`. -/
def begin (s : LoopStack) (location : ℕ) (iterations : UInt8) : Bool × LoopStack :=
  if s.isFull then
    (false, s)
  else
    let top := match s.topItem with
      | some i => i + 1
      | none => 0
    (true,
      { items := Function.update s.items top ⟨location, iterations⟩
        numLoops := s.numLoops + 1
        topItem := some top
        touched := s.touched ++ [top] })

/-- Reach the end of the innermost loop: `LoopStack::end`. Returns the location to jump
back to, or `none` for `BYTECODE_LOCATION_NOWHERE`. -/
def end_ (s : LoopStack) : Option ℕ × LoopStack :=
  match s.topItem with
  | none => (none, s)
  | some i =>
      let item := s.items i
      let s := { s with touched := s.touched ++ [i] }
      if item.iterationsLeftPlusOne = 0 then
        -- an infinite loop
        (some item.start, s)
      else if item.iterationsLeftPlusOne = 1 then
        -- the last iteration: pop the item
        (none,
          { s with
            items := Function.update s.items i { item with iterationsLeftPlusOne := 0 }
            topItem := if i = 0 then none else some (i - 1)
            numLoops := s.numLoops - 1 })
      else
        (some item.start,
          { s with
            items := Function.update s.items i
              { item with iterationsLeftPlusOne := item.iterationsLeftPlusOne - 1 } })

/-- The number of active loops: `LoopStack::size`. -/
def size (s : LoopStack) : UInt8 := s.numLoops

end LoopStack

/-! ### The abstract bounded stack -/

/-- The open loops, innermost first. -/
abbrev OpenLoops := List LoopStackItem

namespace OpenLoops

/-- Begin a loop when fewer than `cap` are open. -/
def begin (cap : ℕ) (l : OpenLoops) (location : ℕ) (iterations : UInt8) : Bool × OpenLoops :=
  if l.length < cap then (true, ⟨location, iterations⟩ :: l) else (false, l)

/-- Reach the end of the innermost loop. -/
def end_ : OpenLoops → Option ℕ × OpenLoops
  | [] => (none, [])
  | item :: rest =>
      if item.iterationsLeftPlusOne = 0 then
        (some item.start, item :: rest)
      else if item.iterationsLeftPlusOne = 1 then
        (none, rest)
      else
        (some item.start,
          { item with iterationsLeftPlusOne := item.iterationsLeftPlusOne - 1 } :: rest)

/-- Ending a loop opens none. -/
theorem length_end_le (l : OpenLoops) : (end_ l).2.length ≤ l.length := by
  cases l with
  | nil => simp [end_]
  | cons item rest =>
      simp only [end_]
      split
      · simp
      · split <;> simp

/-- Beginning a loop keeps the bound. -/
theorem length_begin_le {cap : ℕ} {l : OpenLoops} (h : l.length ≤ cap) (location : ℕ)
    (iterations : UInt8) : (begin cap l location iterations).2.length ≤ cap := by
  unfold begin
  split
  · simpa using by omega
  · exact h

end OpenLoops

/-! ### The stack refines the open loops -/

namespace LoopStack

/-- The items below index `n` of a memory, topmost first. -/
def topDown (items : ℕ → LoopStackItem) : ℕ → OpenLoops
  | 0 => []
  | n + 1 => items n :: topDown items n

@[simp] theorem length_topDown (items : ℕ → LoopStackItem) (n : ℕ) :
    (topDown items n).length = n := by
  induction n with
  | zero => rfl
  | succ n ih => simp [topDown, ih]

/-- Writing at or above index `n` does not change the items below it. -/
theorem topDown_update_of_le {items : ℕ → LoopStackItem} {n k : ℕ} (h : n ≤ k)
    (item : LoopStackItem) : topDown (Function.update items k item) n = topDown items n := by
  induction n with
  | zero => rfl
  | succ n ih =>
      rw [topDown, topDown, ih (by omega), Function.update_of_ne (by omega)]

/-- The number of items from the start of the array to the topmost one. -/
def height (s : LoopStack) : ℕ :=
  match s.topItem with
  | none => 0
  | some i => i + 1

/-- The open loops that the stack represents. -/
def openLoops (s : LoopStack) : OpenLoops := topDown s.items s.height

@[simp] theorem length_openLoops (s : LoopStack) : s.openLoops.length = s.height :=
  length_topDown _ _

@[simp] theorem openLoops_clear (s : LoopStack) : s.clear.openLoops = [] := rfl

/-- The stack counts as full when **five** loops are open. -/
theorem isFull_iff (s : LoopStack) : s.isFull = true ↔ maxLoopDepth + 1 ≤ s.height := by
  cases h : s.topItem <;> simp [isFull, height, h]

/-- The index that a new loop is written to is the number of open loops. -/
theorem begin_eq (s : LoopStack) (location : ℕ) (iterations : UInt8) :
    s.begin location iterations =
      if s.isFull then (false, s) else
        (true,
          { items := Function.update s.items s.height ⟨location, iterations⟩
            numLoops := s.numLoops + 1
            topItem := some s.height
            touched := s.touched ++ [s.height] }) := by
  cases h : s.topItem <;> simp [begin, height, h]

/-- **Refinement of `begin`**, with room for one loop more than the array holds. -/
theorem openLoops_begin (s : LoopStack) (location : ℕ) (iterations : UInt8) :
    ((s.begin location iterations).1, (s.begin location iterations).2.openLoops) =
      OpenLoops.begin (maxLoopDepth + 1) s.openLoops location iterations := by
  rw [begin_eq, OpenLoops.begin, length_openLoops]
  by_cases hfull : s.isFull = true
  · have := (isFull_iff s).mp hfull
    rw [if_pos hfull, if_neg (by omega)]
  · have hlt : s.height < maxLoopDepth + 1 := by
      have := mt (isFull_iff s).mpr hfull
      omega
    rw [if_neg hfull, if_pos hlt]
    simp only [openLoops, Prod.mk.injEq, true_and]
    rw [show ∀ (items : ℕ → LoopStackItem) (nl : UInt8) (t : List ℕ),
        height ⟨items, nl, some s.height, t⟩ = s.height + 1 from fun _ _ _ => rfl,
      topDown, topDown_update_of_le (Nat.le_refl _), Function.update_self]

/-- **Refinement of `end`**. -/
theorem openLoops_end_ (s : LoopStack) :
    (s.end_.1, s.end_.2.openLoops) = OpenLoops.end_ s.openLoops := by
  cases htop : s.topItem with
  | none => simp [end_, openLoops, height, htop, topDown, OpenLoops.end_]
  | some i =>
      have hopen : s.openLoops = s.items i :: topDown s.items i := by
        simp [openLoops, height, htop, topDown]
      rw [hopen]
      simp only [end_, htop, OpenLoops.end_]
      split
      · simp [openLoops, height, topDown]
      · split
        · -- the popped item is not part of the remaining loops
          cases i with
          | zero => simp [openLoops, height, topDown]
          | succ i =>
              simpa [openLoops, height] using topDown_update_of_le (Nat.le_refl (i + 1)) _
        · simp [openLoops, height, topDown, topDown_update_of_le]

/-- The stack never holds more than five loops. -/
def Bounded (s : LoopStack) : Prop := s.height ≤ maxLoopDepth + 1 ∧ s.numLoops.toNat = s.height

theorem bounded_empty : empty.Bounded := by
  constructor <;> simp [height, empty]

theorem bounded_clear (s : LoopStack) : s.clear.Bounded := by
  constructor <;> simp [height, clear]

/-- Beginning a loop keeps the bound and the counter. -/
theorem Bounded.begin {s : LoopStack} (h : s.Bounded) (location : ℕ) (iterations : UInt8) :
    (s.begin location iterations).2.Bounded := by
  obtain ⟨hle, hnum⟩ := h
  rw [begin_eq]
  split
  · exact ⟨hle, hnum⟩
  case isFalse hfull =>
    have hlt : s.height < maxLoopDepth + 1 := by
      have := mt (isFull_iff s).mpr hfull
      omega
    have hmax : maxLoopDepth = 4 := rfl
    refine ⟨hlt, ?_⟩
    simp only [height, UInt8.toNat_add, UInt8.toNat_one, hnum]
    change (s.height + 1) % 256 = s.height + 1
    omega

/-- Ending a loop keeps the bound and the counter. -/
theorem Bounded.end_ {s : LoopStack} (h : s.Bounded) : s.end_.2.Bounded := by
  cases htop : s.topItem with
  | none => simpa [LoopStack.end_, htop] using h
  | some i =>
      obtain ⟨hle, hnum⟩ := h
      have hh : s.height = i + 1 := by simp [height, htop]
      rw [hh] at hle hnum
      simp only [LoopStack.end_, htop]
      split
      · exact ⟨hle, hnum⟩
      · split
        · have hsub : (s.numLoops - 1).toNat = i := by
            rw [UInt8.toNat_sub_of_le _ _ (by rw [UInt8.le_iff_toNat_le, hnum]; simp)]
            simp [hnum]
          cases i with
          | zero => exact ⟨by simp [height], by simpa [height] using hsub⟩
          | succ i => exact ⟨by simp [height]; omega, by simpa [height] using hsub⟩
        · exact ⟨hle, hnum⟩

/-- `size()` is the number of open loops. -/
theorem Bounded.size_eq {s : LoopStack} (h : s.Bounded) : s.size.toNat = s.openLoops.length := by
  rw [length_openLoops]
  exact h.2

end LoopStack

/-! ### Runs of loop operations -/

/-- A call of a loop operation. -/
inductive LoopOp where
  | begin (location : ℕ) (iterations : UInt8)
  | end_
  | clear
  deriving DecidableEq, Repr

/-- What a loop operation returns. -/
inductive LoopResult where
  | started (success : Bool)
  | target (location : Option ℕ)
  | cleared
  deriving DecidableEq, Repr

/-- The operation begins a loop. -/
def LoopOp.isBegin : LoopOp → Bool
  | .begin _ _ => true
  | _ => false

/-- One call on the stack. -/
def LoopStack.apply (s : LoopStack) : LoopOp → LoopResult × LoopStack
  | .begin location iterations =>
      (.started (s.begin location iterations).1, (s.begin location iterations).2)
  | .end_ => (.target s.end_.1, s.end_.2)
  | .clear => (.cleared, s.clear)

/-- One call on the abstract stack of at most `cap` loops. -/
def OpenLoops.apply (cap : ℕ) (l : OpenLoops) : LoopOp → LoopResult × OpenLoops
  | .begin location iterations =>
      (.started (begin cap l location iterations).1, (begin cap l location iterations).2)
  | .end_ => (.target (end_ l).1, (end_ l).2)
  | .clear => (.cleared, [])

/-- A sequence of calls on the stack: their results, and the stack after them. -/
def LoopStack.run (s : LoopStack) : List LoopOp → List LoopResult × LoopStack
  | [] => ([], s)
  | op :: ops =>
      ((s.apply op).1 :: ((s.apply op).2.run ops).1, ((s.apply op).2.run ops).2)

/-- A sequence of calls on the abstract stack. -/
def OpenLoops.run (cap : ℕ) (l : OpenLoops) : List LoopOp → List LoopResult × OpenLoops
  | [] => ([], l)
  | op :: ops =>
      ((apply cap l op).1 :: (run cap (apply cap l op).2 ops).1,
        (run cap (apply cap l op).2 ops).2)

/-- No loop is begun while `maxLoopDepth` loops are open. -/
def OpenLoops.NeverOverfull (l : OpenLoops) : List LoopOp → Prop
  | [] => True
  | op :: ops =>
      (op.isBegin = true → l.length < maxLoopDepth) ∧
        NeverOverfull (apply maxLoopDepth l op).2 ops

namespace LoopStack

/-- Every recorded access is to an item of the array. -/
def Inside (s : LoopStack) : Prop := ∀ i ∈ s.touched, i < maxLoopDepth

/-- The stack agrees with an abstract stack of at most `maxLoopDepth` loops. -/
structure Agrees (s : LoopStack) (l : OpenLoops) : Prop where
  bounded : s.Bounded
  loops : s.openLoops = l
  length_le : l.length ≤ maxLoopDepth
  inside : s.Inside

theorem agrees_empty : empty.Agrees [] :=
  ⟨bounded_empty, rfl, by simp, by simp [Inside, empty]⟩

/-- An operation only adds to the record of accesses. -/
theorem touched_prefix_apply (s : LoopStack) (op : LoopOp) :
    s.touched <+: (s.apply op).2.touched := by
  cases op with
  | begin location iterations =>
      rw [apply, begin_eq]
      split
      · exact List.prefix_refl _
      · exact List.prefix_append _ _
  | end_ =>
      simp only [apply, end_]
      split
      · exact List.prefix_refl _
      · split
        · exact List.prefix_append _ _
        · split <;> exact List.prefix_append _ _
  | clear => exact List.prefix_refl _

/-- A run only adds to the record of accesses. -/
theorem touched_prefix_run (s : LoopStack) (ops : List LoopOp) :
    s.touched <+: (s.run ops).2.touched := by
  induction ops generalizing s with
  | nil => exact List.prefix_refl _
  | cons op ops ih => exact (touched_prefix_apply s op).trans (ih _)

/-- Ending a loop touches at most the topmost item. -/
theorem mem_touched_end_ {s : LoopStack} {i : ℕ} (h : i ∈ s.end_.2.touched) :
    i ∈ s.touched ∨ i < s.height := by
  cases htop : s.topItem with
  | none => exact Or.inl (by simpa [end_, htop] using h)
  | some k =>
      have htouched : s.end_.2.touched = s.touched ++ [k] := by
        simp only [end_, htop]
        split
        · rfl
        · split <;> rfl
      rw [htouched, List.mem_append, List.mem_singleton] at h
      simp only [height, htop]
      rcases h with h | rfl
      · exact Or.inl h
      · exact Or.inr (Nat.lt_succ_self _)

/-- **Step lemma.** An operation that does not begin a loop while four are open agrees
with the abstract stack, and so does the state after it. -/
theorem Agrees.apply {s : LoopStack} {l : OpenLoops} (h : s.Agrees l) {op : LoopOp}
    (hop : op.isBegin = true → l.length < maxLoopDepth) :
    (s.apply op).1 = (OpenLoops.apply maxLoopDepth l op).1 ∧
      (s.apply op).2.Agrees (OpenLoops.apply maxLoopDepth l op).2 := by
  obtain ⟨hb, rfl, hlen, hin⟩ := h
  cases op with
  | begin location iterations =>
      have hlt := hop rfl
      have href := openLoops_begin s location iterations
      have hcap : OpenLoops.begin (maxLoopDepth + 1) s.openLoops location iterations =
          OpenLoops.begin maxLoopDepth s.openLoops location iterations := by
        rw [OpenLoops.begin, OpenLoops.begin, if_pos hlt, if_pos (by omega)]
      rw [hcap, Prod.ext_iff] at href
      refine ⟨congrArg LoopResult.started href.1, hb.begin _ _, href.2,
        OpenLoops.length_begin_le hlen _ _, ?_⟩
      intro i hi
      rw [LoopStack.apply, begin_eq] at hi
      rw [length_openLoops] at hlt
      split at hi
      · exact hin i hi
      · rcases List.mem_append.mp hi with hi | hi
        · exact hin i hi
        · obtain rfl := List.mem_singleton.mp hi
          exact hlt
  | end_ =>
      have href := Prod.ext_iff.mp (openLoops_end_ s)
      refine ⟨congrArg LoopResult.target href.1, hb.end_, href.2,
        Nat.le_trans (OpenLoops.length_end_le _) hlen, fun i hi => ?_⟩
      rw [length_openLoops] at hlen
      rcases mem_touched_end_ hi with hmem | hlt
      · exact hin i hmem
      · omega
  | clear => exact ⟨rfl, bounded_clear s, rfl, by simp [OpenLoops.apply], hin⟩

/-- Beginning a fifth loop touches the item behind the array. -/
theorem touches_beyond {s : LoopStack} {l : OpenLoops} (h : s.Agrees l) {op : LoopOp}
    (hop : op.isBegin = true) (hfull : ¬ l.length < maxLoopDepth) :
    ¬ (s.apply op).2.Inside := by
  obtain ⟨-, rfl, hlen, -⟩ := h
  have hheight : s.height = maxLoopDepth := by
    rw [length_openLoops] at hlen hfull
    omega
  cases op with
  | begin location iterations =>
      intro hin
      have hnot : ¬ s.isFull = true := by
        rw [isFull_iff, hheight]
        omega
      have hlast : maxLoopDepth ∈ (s.apply (.begin location iterations)).2.touched := by
        rw [apply, begin_eq, if_neg hnot]
        simp [hheight]
      exact Nat.lt_irrefl _ (hin _ hlast)
  | end_ => cases hop
  | clear => cases hop

/-- **Run lemma.** From a stack that agrees with an abstract one, a sequence of calls
stays inside the array exactly when it never begins a loop while four are open, and then
every result and the final state agree with the abstract stack. -/
theorem Agrees.run {s : LoopStack} {l : OpenLoops} (h : s.Agrees l) (ops : List LoopOp) :
    ((s.run ops).2.Inside ↔ l.NeverOverfull ops) ∧
      (l.NeverOverfull ops →
        (s.run ops).1 = (l.run maxLoopDepth ops).1 ∧
          (s.run ops).2.Agrees (l.run maxLoopDepth ops).2) := by
  induction ops generalizing s l with
  | nil => exact ⟨⟨fun _ => trivial, fun _ => h.inside⟩, fun _ => ⟨rfl, h⟩⟩
  | cons op ops ih =>
      by_cases hop : op.isBegin = true → l.length < maxLoopDepth
      · obtain ⟨hres, hagr⟩ := h.apply hop
        obtain ⟨hiff, himp⟩ := ih hagr
        refine ⟨⟨fun hin => ⟨hop, hiff.mp hin⟩, fun hn => hiff.mpr hn.2⟩, fun hn => ?_⟩
        obtain ⟨hrun, hfin⟩ := himp hn.2
        refine ⟨?_, hfin⟩
        simp only [LoopStack.run, OpenLoops.run, hres, hrun]
      · have hover : ¬ l.NeverOverfull (op :: ops) := fun hn => hop hn.1
        simp only [Classical.not_imp] at hop
        refine ⟨⟨fun hin => absurd ?_ (touches_beyond h hop.1 hop.2),
          fun hn => absurd hn hover⟩, fun hn => absurd hn hover⟩
        exact fun i hi => hin i ((touched_prefix_run _ ops).subset hi)

end LoopStack

end Skybrush
