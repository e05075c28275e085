import Skybrush.Library.WhileLoop
import Skybrush.StructuredProgram
import Skybrush.VaruintWidths

/-!
# Reading Variable-Length Integers from Bytecode

The loop of `CommandExecutor::nextVarint` reads the same encoding as `sb_parse_varuint32`, but it
has no bound on the number of bytes: each byte is shifted by seven bits more than the one before,
in a counter of 8 bits. Here the loop keeps a record of the shifts that it performs.
`Returns` says with which variables it is left; `nextVarint` is what is seen of them.

A store hands out the bytes that are ahead of its location, and `CMD_END` behind them. It covers
as many bytes as a 16-bit number can count, which may be fewer than the program has.

## Main results

* `VarintReader.returns_nextVarint`: the loop returns what `nextVarint` does.
* `VarintReader.exists_reaches`: what the loop reads and which shifts it performs.
* `nextVarint_iff`: when the loop reads what the program says, with no shift that is too wide.
-/

namespace Skybrush

open Base128 BytecodeStore

/-! ### The bytes ahead -/

namespace BytecodeStore

/-- The bytes that a store can still hand out. -/
def ahead (s : BytecodeStore) : List UInt8 := (s.data.take s.size).drop s.nextIndex

variable {s : BytecodeStore} {b : UInt8} {bytes : List UInt8}

/-- The next byte is the first one ahead. -/
theorem next_of_ahead (hactive : s.suspended = false) (h : s.ahead = b :: bytes) :
    s.next = (b, s.skip 1) ∧ (s.skip 1).ahead = bytes := by
  have hinside : s.nextIndex < s.size := by
    have hlength := congrArg List.length h
    rw [ahead, List.length_drop, List.length_take, List.length_cons] at hlength
    omega
  have hat : s.StandsAt [b] := by
    refine ⟨hactive, hinside, ?_⟩
    have htake : s.ahead <+: s.data.drop s.nextIndex := by
      rw [ahead, List.drop_take]
      exact List.take_prefix ..
    rw [h] at htake
    exact (List.prefix_append [b] bytes).trans htake
  refine ⟨hat.next, ?_⟩
  change (s.data.take s.size).drop (s.nextIndex + 1) = bytes
  rw [← List.drop_drop, ← ahead, h]
  rfl

/-- With nothing ahead there is the end of the program only. -/
theorem next_of_ahead_nil (hactive : s.suspended = false) (h : s.ahead = []) :
    s.next = (cmdEnd, s) := by
  have hle := List.drop_eq_nil_iff.mp h
  have hsize := s.size_le
  rw [List.length_take] at hle
  exact next_of_ge hactive (by omega)

end BytecodeStore

/-! ### The loop -/

/-- The variables of `CommandExecutor::nextVarint`, and the shifts that were performed. -/
structure VarintReader where
  store : BytecodeStore
  result : UInt64
  readByte : UInt8
  shift : UInt8
  shifts : List ℕ

namespace VarintReader

/-- The variables in front of the loop, which sets the byte that was read before it looks at it. -/
def start (s : BytecodeStore) : VarintReader := ⟨s, 0, 0, 0, []⟩

/-- The body of the loop. -/
def iterate (r : VarintReader) : VarintReader :=
  let readByte := r.store.next.1
  { store := r.store.next.2
    result := r.result ||| ((readByte &&& 0x7F).toUInt64 <<< r.shift.toUInt64)
    readByte := readByte
    shift := r.shift + 7
    shifts := r.shifts ++ [r.shift.toNat] }

/-- The condition of the loop. -/
def Continues (r : VarintReader) : Prop := continues r.readByte = true

instance : DecidablePred Continues := fun r =>
  inferInstanceAs (Decidable (continues r.readByte = true))

/-- The loop stops with these variables; its body is executed before the first test. -/
def Reaches (r r' : VarintReader) : Prop := WhileLoop.Reaches Continues iterate r.iterate r'

/-- Reading from a store stops with these variables. -/
def Returns (s : BytecodeStore) (r : VarintReader) : Prop := (start s).Reaches r

variable {s : BytecodeStore} {r r' : VarintReader}

@[simp] theorem store_iterate : r.iterate.store = r.store.next.2 := rfl

@[simp] theorem result_iterate : r.iterate.result =
    r.result ||| ((r.store.next.1 &&& 0x7F).toUInt64 <<< r.shift.toUInt64) := rfl

@[simp] theorem shift_iterate : r.iterate.shift = r.shift + 7 := rfl

@[simp] theorem shifts_iterate : r.iterate.shifts = r.shifts ++ [r.shift.toNat] := rfl

@[simp] theorem continues_iterate : r.iterate.Continues ↔ continues r.store.next.1 = true := Iff.rfl

/-- A last byte ends the loop. -/
theorem reaches_of_last (h : continues r.store.next.1 = false) : r.Reaches r.iterate := by
  have hlast : ¬ r.iterate.Continues := by
    rw [continues_iterate, h]
    exact Bool.false_ne_true
  exact (WhileLoop.reaches_of_not hlast).mpr rfl

/-- Any other byte is followed by one more iteration. -/
theorem reaches_of_continues (h : continues r.store.next.1 = true) :
    r.Reaches r' ↔ r.iterate.Reaches r' :=
  WhileLoop.reaches_of (continues_iterate.mpr h)

/-- The loop with the record of the shifts does what the loop without it does. -/
theorem nextVarintLoop_of_run {fuel : ℕ}
    (h : WhileLoop.run Continues iterate fuel r.iterate = some r') :
    nextVarintLoop (fuel + 1) r.store r.result r.shift = (r'.result, r'.store) := by
  induction fuel generalizing r with
  | zero =>
      by_cases hc : continues r.store.next.1 = true
      · simp [WhileLoop.run, hc] at h
      · rw [WhileLoop.run_of_not (continues_iterate.not.mpr hc)] at h
        obtain rfl := Option.some.inj h
        rw [nextVarintLoop_succ, if_neg hc, result_iterate, store_iterate]
  | succ fuel ih =>
      by_cases hc : continues r.store.next.1 = true
      · rw [WhileLoop.run_succ_of (continues_iterate.mpr hc)] at h
        have hrest := ih h
        rw [store_iterate, result_iterate, shift_iterate] at hrest
        rw [nextVarintLoop_succ, if_pos hc, hrest]
      · rw [WhileLoop.run_of_not (continues_iterate.not.mpr hc)] at h
        obtain rfl := Option.some.inj h
        rw [nextVarintLoop_succ, if_neg hc, result_iterate, store_iterate]

/-- **The loop returns** what `nextVarint` does. -/
theorem returns_nextVarint (h : Returns s r) : s.nextVarint = (r.result, r.store) := by
  obtain ⟨fuel, hrun⟩ := h
  obtain ⟨long, hfuel, hbytes⟩ : ∃ long, fuel ≤ long ∧ s.size - s.nextIndex < long + 1 :=
    ⟨fuel + (s.size - s.nextIndex), by omega, by omega⟩
  have hloop := nextVarintLoop_of_run (WhileLoop.run_mono hfuel hrun)
  exact (nextVarint_eq hbytes).symm.trans hloop

/-! ### What it reads -/

/-- The shifts of `n` iterations. -/
def shiftsFrom (shift : UInt8) (n : ℕ) : List ℕ :=
  (List.range n).map fun i => (shift.toNat + 7 * i) % 256

theorem shiftsFrom_one (shift : UInt8) : shiftsFrom shift 1 = [shift.toNat] := by
  simp [shiftsFrom]

theorem shiftsFrom_succ (shift : UInt8) (n : ℕ) :
    shiftsFrom shift (n + 1) = shift.toNat :: shiftsFrom (shift + 7) n := by
  have hseven : (7 : UInt8).toNat = 7 := rfl
  have hlt : shift.toNat < 256 := shift.toNat_lt
  rw [shiftsFrom, List.range_succ_eq_map, List.map_cons, List.map_map, Nat.mul_zero, Nat.add_zero,
    Nat.mod_eq_of_lt hlt]
  congr 1
  apply List.map_congr_left
  intro i _
  rw [UInt8.toNat_add, hseven, Function.comp_apply]
  omega

/-- **What the loop reads**: the bytes ahead, up to the first one that does not continue. By
induction on them; behind the last one there is `CMD_END`, which ends the loop and adds no bits. -/
theorem exists_reaches (hactive : r.store.suspended = false) :
    ∃ r', r.Reaches r' ∧
      r'.store = r.store.skip (min (distance r.store.ahead + 1) r.store.ahead.length) ∧
      r'.result = varintNumber (r.store.ahead.take (distance r.store.ahead + 1)) r.result r.shift ∧
      r'.shifts = r.shifts ++ shiftsFrom r.shift (distance r.store.ahead + 1) := by
  generalize hbytes : r.store.ahead = bytes
  induction bytes generalizing r with
  | nil =>
      have hnext := next_of_ahead_nil hactive hbytes
      have hlast : continues cmdEnd = false := by decide
      refine ⟨r.iterate, reaches_of_last (by rw [hnext, hlast]), ?_, ?_, ?_⟩
      · rw [store_iterate, hnext]
        rfl
      · rw [result_iterate, hnext]
        have hzero : (cmdEnd &&& 0x7F).toUInt64 = 0 := rfl
        rw [hzero, UInt64.zero_shiftLeft, UInt64.or_zero]
        rfl
      · rw [shifts_iterate, distance_nil, shiftsFrom_one]
  | cons b bytes ih =>
      obtain ⟨hnext, hahead⟩ := next_of_ahead hactive hbytes
      have hb : r.store.next.1 = b := congrArg Prod.fst hnext
      have hstore : r.iterate.store = r.store.skip 1 := congrArg Prod.snd hnext
      cases hc : continues b with
      | false =>
          have hdistance := distance_cons_of_last hc bytes
          refine ⟨r.iterate, reaches_of_last (by rw [hb, hc]), ?_, ?_, ?_⟩
          · rw [hstore, hdistance]
            simp
          · rw [result_iterate, hb, hdistance]
            rfl
          · rw [shifts_iterate, hdistance, shiftsFrom_one]
      | true =>
          have hdistance := distance_cons_of_continues hc bytes
          obtain ⟨r', hreaches, hstore', hresult, hshifts⟩ :=
            ih (r := r.iterate) (by rw [hstore]; exact hactive) (by rw [hstore, hahead])
          refine ⟨r', (reaches_of_continues (by rw [hb, hc])).mpr hreaches, ?_, ?_, ?_⟩
          · rw [hstore', hstore, skip_skip, hdistance, List.length_cons, Nat.add_min_add_right,
              Nat.add_comm 1]
          · rw [hresult, result_iterate, shift_iterate, hb, hdistance, List.take_succ_cons,
              varintNumber]
          · rw [hshifts, shifts_iterate, shift_iterate, hdistance, shiftsFrom_succ r.shift,
              List.append_assoc, List.singleton_append]

/-- The shifts are narrow as long as there are at most ten of them. -/
theorem shiftsFrom_lt_iff (n : ℕ) : (∀ shift ∈ shiftsFrom 0 (n + 1), shift < 64) ↔ n ≤ 9 := by
  have hzero : (0 : UInt8).toNat = 0 := rfl
  simp only [shiftsFrom, List.forall_mem_map, List.mem_range, hzero, Nat.zero_add]
  constructor
  · intro h
    by_contra hn
    have := h 10 (by omega)
    omega
  · intro hn i hi
    rw [Nat.mod_eq_of_lt (by omega)]
    omega

end VarintReader

/-! ### Reading from a program -/

section Program

variable (program : List UInt8) (position : ℕ)

/-- The store over a program, at a position in it. -/
def storeAt : BytecodeStore := (BytecodeStore.ofArray program).seek position

/-- A number is read from a position of a program as it should be: what is consumed are the bytes
up to the first one that does not continue, and at most those up to the end of the program; the
value and the position are the ones of `sb_parse_varuint32` if that succeeds; and no shift is as
wide as the result. -/
structure ReadsRight (r : VarintReader) : Prop where
  consumed : r.store = (storeAt program position).skip
    (min (distance (program.drop position) + 1) (program.drop position).length)
  agrees : ∀ value offset, parseVaruint32 program position = .ok (.ok value, offset) →
    r.result.toNat = value ∧ r.store.nextIndex = offset
  shifts : ∀ shift ∈ r.shifts, shift < 64

/-- The store covers the number: it covers the whole program, or nothing of the program is ahead,
or the last byte of the number is in the part that it covers. -/
def CoversNumber : Prop :=
  program.length < 2 ^ 16 ∨ program.length ≤ position ∨
    position + distance (program.drop position) < program.length % 2 ^ 16

theorem ahead_storeAt : (storeAt program position).ahead =
    (program.drop position).take (program.length % 2 ^ 16 - position) := List.drop_take ..

variable {program position}

/-- Less than the number is consumed if the store does not cover it. -/
theorem consumed_iff :
    min (min (program.length % 2 ^ 16 - position) (distance (program.drop position)) + 1)
        (min (program.length % 2 ^ 16 - position) (program.drop position).length) =
      min (distance (program.drop position) + 1) (program.drop position).length ↔
        CoversNumber program position := by
  have hle := distance_le_length (program.drop position)
  rw [List.length_drop] at hle
  rw [CoversNumber, List.length_drop]
  omega

variable (program position) in
/-- What is read from a program. -/
theorem VarintReader.exists_returns :
    ∃ r, Returns (storeAt program position) r ∧
      (r.store = (storeAt program position).skip
          (min (distance (program.drop position) + 1) (program.drop position).length) ↔
        CoversNumber program position) ∧
      (CoversNumber program position →
        r.result = varintNumber
            ((program.drop position).take (distance (program.drop position) + 1)) 0 0 ∧
          r.shifts = shiftsFrom 0 (distance (program.drop position) + 1)) := by
  obtain ⟨r, hreturns, hstore, hresult, hshifts⟩ :=
    VarintReader.exists_reaches (r := start (storeAt program position)) rfl
  have hle := distance_le_length (program.drop position)
  have hstart : (start (storeAt program position)).store = storeAt program position := rfl
  rw [hstart, ahead_storeAt, distance_take] at hstore hresult hshifts
  refine ⟨r, hreturns, ?_, fun hcovers => ?_⟩
  · rw [hstore, List.length_take, ← consumed_iff]
    constructor
    · intro h
      have hindex := congrArg BytecodeStore.nextIndex h
      rw [nextIndex_skip, nextIndex_skip] at hindex
      omega
    · intro h
      rw [h]
  · -- the whole number is inside the part that the store covers
    have hroom : min (program.length % 2 ^ 16 - position) (distance (program.drop position)) =
        distance (program.drop position) := by
      rw [CoversNumber] at hcovers
      rw [List.length_drop] at hle
      omega
    have htake : ((program.drop position).take (program.length % 2 ^ 16 - position)).take
        (distance (program.drop position) + 1) =
          (program.drop position).take (distance (program.drop position) + 1) := by
      rw [List.take_take, List.take_eq_take_iff, List.length_drop]
      rw [CoversNumber] at hcovers
      rw [List.length_drop] at hle
      omega
    rw [hroom] at hresult hshifts
    rw [htake] at hresult
    exact ⟨hresult, hshifts⟩

/-- A number that `sb_parse_varuint32` accepts is read by the executor as well. -/
theorem varintNumber_eq {value offset : ℕ}
    (h : parseVaruint32 program position = .ok (.ok value, offset)) :
    (varintNumber ((program.drop position).take (distance (program.drop position) + 1)) 0 0).toNat =
        value ∧
      offset = position + (distance (program.drop position) + 1) ∧
      distance (program.drop position) < (program.drop position).length := by
  rw [parseVaruint32_eq, varuint32Outcome] at h
  generalize hk : distance (program.drop position) = k at h ⊢
  generalize program.drop position = bytes at h hk ⊢
  split at h
  case isTrue => cases h
  case isFalse hlt =>
    split at h
    case isFalse => cases h
    case isTrue hsmall =>
      cases h
      refine ⟨?_, rfl, by omega⟩
      have hfour : k + 1 ≤ 5 := by omega
      have hvalue : Base128.value (bytes.take (k + 1)) < 2 ^ 64 := calc
        Base128.value (bytes.take (k + 1)) < 128 ^ (bytes.take (k + 1)).length := value_lt _
        _ ≤ 128 ^ 5 := Nat.pow_le_pow_right (by decide) ((List.length_take_le _ _).trans hfour)
        _ < 2 ^ 64 := by norm_num
      have hnumber : (varintNumber (bytes.take (k + 1)) 0 (UInt8.ofNat 0)).toNat =
          (0 : UInt64).toNat + 2 ^ 0 * Base128.value (bytes.take (k + 1)) :=
        toNat_varintNumber (by decide) (by simpa using hvalue)
      simpa using hnumber

/-- **The executor reads variable-length integers** as it should, from every program and every
position in it, if and only if at most nine bytes continue and the store covers the
number: the loop stops, with the number and the store of `nextVarint`, and they and the
shifts on the way are right. -/
theorem nextVarint_iff :
    (∃ r, VarintReader.Returns (storeAt program position) r ∧
        (storeAt program position).nextVarint = (r.result, r.store) ∧
        ReadsRight program position r) ↔
      distance (program.drop position) ≤ 9 ∧ CoversNumber program position := by
  obtain ⟨r, hreturns, hconsumed, hread⟩ :=
    VarintReader.exists_returns program position
  constructor
  · rintro ⟨r', hreturns', -, hright⟩
    obtain rfl := WhileLoop.Reaches.unique hreturns' hreturns
    have hcovers := hconsumed.mp hright.consumed
    have hshifts := hright.shifts
    rw [(hread hcovers).2] at hshifts
    exact ⟨(VarintReader.shiftsFrom_lt_iff _).mp hshifts, hcovers⟩
  · rintro ⟨hnine, hcovers⟩
    obtain ⟨hresult, hshifts⟩ := hread hcovers
    have hstore := hconsumed.mpr hcovers
    refine ⟨r, hreturns, VarintReader.returns_nextVarint hreturns, hstore,
      fun value offset hparse => ?_, ?_⟩
    · obtain ⟨hvalue, hoffset, hlength⟩ := varintNumber_eq hparse
      refine ⟨by rw [hresult, hvalue], ?_⟩
      rw [hstore, nextIndex_skip, Nat.min_eq_left hlength, hoffset]
      rfl
    · rw [hshifts]
      exact (VarintReader.shiftsFrom_lt_iff _).mpr hnine

/-- Ten bytes that continue: the byte behind them is shifted by 70 bits. -/
theorem elevenBytes_shiftTooWide :
    (∃ r, VarintReader.Returns (storeAt (List.replicate 10 0x80 ++ [0x01]) 0) r ∧ 70 ∈ r.shifts) ∧
      ¬ ∃ r, VarintReader.Returns (storeAt (List.replicate 10 0x80 ++ [0x01]) 0) r ∧
        (storeAt (List.replicate 10 0x80 ++ [0x01]) 0).nextVarint = (r.result, r.store) ∧
        ReadsRight (List.replicate 10 0x80 ++ [0x01]) 0 r := by
  obtain ⟨r, hreturns, -, hread⟩ :=
    VarintReader.exists_returns (List.replicate 10 0x80 ++ [0x01]) 0
  have hdistance : distance (List.drop 0 (List.replicate 10 0x80 ++ [0x01])) = 10 := by decide
  have hshifts := (hread (Or.inl (by decide))).2
  rw [hdistance] at hshifts
  have hwide : 70 ∈ r.shifts := by
    rw [hshifts]
    decide
  refine ⟨⟨r, hreturns, hwide⟩, ?_⟩
  rintro ⟨r', hreturns', -, hright⟩
  obtain rfl := WhileLoop.Reaches.unique hreturns' hreturns
  exact absurd (hright.shifts 70 hwide) (by decide)

end Program

end Skybrush
