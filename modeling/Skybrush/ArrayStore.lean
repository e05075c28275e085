import Mathlib.Tactic.Linarith
import Skybrush.Error
import Skybrush.Executor
import Skybrush.Library.Checked

/-!
# Bytecode Stores in Machine Words

`ArrayBytecodeStore` with the words that it is written in. The length of a light program is a
`size_t`, the size of the store a 16-bit number, its location an `int`, and the addresses that
the executor jumps to come from an `unsigned long`. `BytecodeStore` counts with natural numbers
instead; the store in machine words refines it.

What a store hands out is compared with the bytes of the program, for any run of fetches, seeks
and rewinds of the executor. A program of `2 ^ 16` bytes or more is longer than its store.

## Main results

* `ArrayBytecodeStore.Refines.next`, `ArrayBytecodeStore.Refines.seek`: the words are wide enough
  for all that a store does once it is created.
* `run_refines`: no run reads outside the program, and which fetches are right.
* `fetches_right_iff`: when all fetches of a run are right.
* `fetchesRight_forall_iff`: the programs for which they always are.
-/

namespace Skybrush

open Checked

/-! ### The store -/

/-- A light program: `sb_light_program_t`. -/
structure LightProgram where
  buffer : List UInt8
  bufferLength : ℕ

/-- `sb_light_program_init_from_buffer`, which accepts every buffer. -/
def LightProgram.initFromBuffer (buf : List UInt8) : Except SbError LightProgram :=
  .ok { buffer := buf, bufferLength := buf.length }

/-- `ArrayBytecodeStore`. -/
structure ArrayBytecodeStore where
  data : List UInt8
  nextIndex : Int32
  size : UInt16
  suspendCounter : Int16

namespace ArrayBytecodeStore

/-- `ArrayBytecodeStore::ArrayBytecodeStore`. -/
def construct (data : List UInt8) (size : UInt16) : ArrayBytecodeStore := ⟨data, 0, size, 0⟩

/-- The store that `sb_light_player_init` creates. -/
def ofProgram (program : LightProgram) : ArrayBytecodeStore :=
  construct program.buffer (UInt16.ofNat program.bufferLength)

/-- `BytecodeStore::suspended`. -/
def suspended (s : ArrayBytecodeStore) : Bool := 0 < s.suspendCounter

/-- `ArrayBytecodeStore::seek`. -/
def seek (s : ArrayBytecodeStore) (location : Int32) : ArrayBytecodeStore :=
  { s with nextIndex := location }

/-- `ArrayBytecodeStore::rewind`. -/
def rewind (s : ArrayBytecodeStore) : ArrayBytecodeStore := { s with nextIndex := 0 }

/-- `m_data[m_nextIndex]`. -/
def currentByte (s : ArrayBytecodeStore) : Checked SbError UInt8 :=
  if s.nextIndex < 0 then fault else read s.data s.nextIndex.toNatClampNeg

/-- `ArrayBytecodeStore::nextByte`. -/
def nextByte (s : ArrayBytecodeStore) : Checked SbError (UInt8 × ArrayBytecodeStore) :=
  if s.nextIndex.toInt < s.size.toNat then do
    let result ← s.currentByte
    ok (result, { s with nextIndex := s.nextIndex + 1 })
  else
    ok (cmdEnd, s)

/-- `ArrayBytecodeStore::next`. -/
def next (s : ArrayBytecodeStore) : Checked SbError (UInt8 × ArrayBytecodeStore) :=
  if s.suspended then ok (cmdNop, s) else s.nextByte

/-! ### The words are wide enough -/

/-- A store in machine words and the store that it stands for. -/
structure Refines (s : ArrayBytecodeStore) (t : BytecodeStore) : Prop where
  data_eq : t.data = s.data
  size_eq : t.size = s.size.toNat
  location : s.nextIndex.toInt = t.nextIndex
  suspend_eq : t.suspendCounter = s.suspendCounter

variable {s : ArrayBytecodeStore} {t : BytecodeStore}

/-- A created store stands for the store over the program. -/
theorem refines_ofProgram {buf : List UInt8} {program : LightProgram}
    (h : LightProgram.initFromBuffer buf = .ok program) :
    (ofProgram program).Refines (.ofArray buf) := by
  cases h
  exact ⟨rfl, (UInt16.toNat_ofNat' ..).symm, rfl, rfl⟩

/-- **Seeking**: the valid addresses are locations. -/
theorem Refines.seek (h : s.Refines t) {location : Int32} {address : ℕ}
    (ha : location.toInt = address) : (s.seek location).Refines (t.seek address) :=
  ⟨h.data_eq, h.size_eq, ha, h.suspend_eq⟩

theorem Refines.rewind (h : s.Refines t) : s.rewind.Refines t.rewind :=
  ⟨h.data_eq, h.size_eq, rfl, h.suspend_eq⟩

/-- **The next byte**: it is inside the program, and the location does not overflow. -/
theorem Refines.nextByte (h : s.Refines t) :
    ∃ s', s.nextByte = ok (t.nextByte.1, s') ∧ s'.Refines t.nextByte.2 := by
  rw [ArrayBytecodeStore.nextByte, BytecodeStore.nextByte]
  by_cases hinside : t.nextIndex < t.size
  · have hword : s.nextIndex.toInt < s.size.toNat := by
      rw [h.location, ← h.size_eq]
      exact_mod_cast hinside
    have hdata : t.nextIndex < s.data.length := by
      rw [← h.data_eq]
      exact hinside.trans_le t.size_le
    have hnonneg : ¬ s.nextIndex < 0 := by
      rw [Int32.lt_iff_toInt_lt, h.location]
      exact not_lt.mpr (Int.natCast_nonneg _)
    have hindex : s.nextIndex.toNatClampNeg = t.nextIndex := by
      rw [← Int32.toNat_toInt, h.location, Int.toNat_natCast]
    have hbyte : s.currentByte = ok (t.data.get ⟨t.nextIndex, hinside.trans_le t.size_le⟩) := by
      rw [currentByte, if_neg hnonneg, hindex, read_of_lt hdata]
      simp only [h.data_eq, List.get_eq_getElem]
    have hsucc : (s.nextIndex + 1).toInt = ((t.nextIndex + 1 : ℕ) : ℤ) := by
      have hsmall : t.nextIndex < 2 ^ 16 := by
        have := s.size.toNat_lt
        have := h.size_eq
        omega
      rw [Int32.toInt_add, h.location, Int32.toInt_one, Int.bmod_eq_of_le (by omega) (by omega)]
      rfl
    rw [if_pos hword, hbyte, dif_pos hinside]
    exact ⟨_, rfl, h.data_eq, h.size_eq, hsucc, h.suspend_eq⟩
  · have hword : ¬ s.nextIndex.toInt < s.size.toNat := by
      rw [h.location, ← h.size_eq]
      exact_mod_cast hinside
    rw [if_neg hword, dif_neg hinside]
    exact ⟨s, rfl, h⟩

/-- **The next byte** of a store that may be suspended. -/
theorem Refines.next (h : s.Refines t) :
    ∃ s', s.next = ok (t.next.1, s') ∧ s'.Refines t.next.2 := by
  have hsuspended : s.suspended = t.suspended := by
    rw [suspended, BytecodeStore.suspended, h.suspend_eq]
  rw [ArrayBytecodeStore.next, BytecodeStore.next, hsuspended]
  split
  · exact ⟨s, rfl, h⟩
  · exact h.nextByte

end ArrayBytecodeStore

/-! ### Runs of the executor on its store -/

/-- An address that the executor jumps to: it has passed `isAddressValid`. -/
abbrev Address := { address : UInt64 // isAddressValid address.toNat = true }

/-- What the executor does with its store. -/
inductive StoreAction where
  | fetch
  | seek (address : Address)
  | rewind

/-- A byte that was fetched, with the locations before and behind. -/
structure Fetch where
  location : Int32
  byte : UInt8
  behind : Int32
  deriving DecidableEq, Repr

/-- A byte was fetched as the program says: at a location of the program its byte, and the location
is advanced by one; anywhere else `CMD_END`. -/
def Fetch.Right (buf : List UInt8) (f : Fetch) : Prop :=
  ∃ location : ℕ, f.location.toInt = location ∧
    if h : location < buf.length then
      f.byte = buf[location] ∧ f.behind.toInt = location + 1
    else
      f.byte = cmdEnd ∧ f.behind = f.location

namespace StoreAction

open ArrayBytecodeStore

/-- Perform an action, and report what was fetched. -/
def exec (action : StoreAction) (s : ArrayBytecodeStore) :
    Checked SbError (List Fetch × ArrayBytecodeStore) :=
  match action with
  | fetch => do
      let (byte, s') ← s.next
      ok ([⟨s.nextIndex, byte, s'.nextIndex⟩], s')
  | seek address => ok ([], s.seek (Int32.ofNat address.val.toNat))
  | rewind => ok ([], s.rewind)

/-- Perform actions, and report what was fetched. -/
def run (s : ArrayBytecodeStore) : List StoreAction →
    Checked SbError (List Fetch × ArrayBytecodeStore)
  | [] => ok ([], s)
  | action :: actions => do
      let (fetches, s') ← action.exec s
      let (fetches', s'') ← run s' actions
      ok (fetches ++ fetches', s'')

theorem run_cons {s s' s'' : ArrayBytecodeStore} {action : StoreAction}
    {actions : List StoreAction} {fetches fetches' : List Fetch}
    (hexec : action.exec s = ok (fetches, s')) (hrun : run s' actions = ok (fetches', s'')) :
    run s (action :: actions) = ok (fetches ++ fetches', s'') := by
  simp only [run, hexec, ok_bind, hrun]

/-- The locations of the fetches, with a cursor over a program of a length: where fetches
should be made. -/
def fetchLocations (length : ℕ) : ℕ → List StoreAction → List ℕ
  | _, [] => []
  | location, fetch :: actions =>
      location ::
        fetchLocations length (if location < length then location + 1 else location) actions
  | _, seek address :: actions => fetchLocations length address.val.toNat actions
  | _, rewind :: actions => fetchLocations length 0 actions

end StoreAction

/-- All bytes that a run fetches from the store of a program are right. -/
def FetchesRight (buf : List UInt8) (actions : List StoreAction) : Prop :=
  ∃ program fetches s, LightProgram.initFromBuffer buf = .ok program ∧
    StoreAction.run (.ofProgram program) actions = ok (fetches, s) ∧ ∀ f ∈ fetches, f.Right buf

/-- The store of a program covers a location, or nothing is there. -/
def CoversLocation (buf : List UInt8) (location : ℕ) : Prop :=
  location < buf.length % 2 ^ 16 ∨ buf.length ≤ location

/-! ### What a fetch does -/

section Runs

open ArrayBytecodeStore

variable {buf : List UInt8} {location : ℕ} {s : ArrayBytecodeStore}

/-- The valid addresses are locations. -/
theorem toInt_address (address : Address) :
    (Int32.ofNat address.val.toNat).toInt = address.val.toNat := by
  have hvalid : address.val.toNat < 2 ^ 31 - 1 := of_decide_eq_true address.property
  exact Int32.toInt_ofNat_of_lt (by omega)

/-- Inside the part that the store covers there are the bytes of the program. -/
theorem next_inside (h : location < buf.length % 2 ^ 16) (hlt : location < buf.length) :
    ((BytecodeStore.ofArray buf).seek location).next =
      (buf[location], (BytecodeStore.ofArray buf).seek (location + 1)) :=
  BytecodeStore.next_of_lt rfl h

/-- Anywhere else there is the end of the program only. -/
theorem next_outside (h : ¬ location < buf.length % 2 ^ 16) :
    ((BytecodeStore.ofArray buf).seek location).next =
      (cmdEnd, (BytecodeStore.ofArray buf).seek location) :=
  BytecodeStore.next_of_ge rfl (Nat.le_of_not_lt h)

/-- **A fetch** is right exactly at the locations that the store covers, and then it moves as the
program says. -/
theorem exec_fetch (h : s.Refines ((BytecodeStore.ofArray buf).seek location)) :
    ∃ f s' behind, StoreAction.exec .fetch s = ok ([f], s') ∧
      s'.Refines ((BytecodeStore.ofArray buf).seek behind) ∧
      (f.Right buf ↔ CoversLocation buf location) ∧
      (CoversLocation buf location →
        behind = if location < buf.length then location + 1 else location) := by
  obtain ⟨s', hnext, hrefines⟩ := h.next
  have hlocation : s.nextIndex.toInt = location := h.location
  have hmod := Nat.mod_le buf.length (2 ^ 16)
  by_cases hinside : location < buf.length % 2 ^ 16
  · have hlt : location < buf.length := by omega
    rw [next_inside hinside hlt] at hnext hrefines
    refine ⟨⟨s.nextIndex, buf[location], s'.nextIndex⟩, s', location + 1,
      by rw [StoreAction.exec, hnext]; rfl, hrefines, ?_, fun _ => (if_pos hlt).symm⟩
    refine iff_of_true ⟨location, hlocation, ?_⟩ (Or.inl hinside)
    rw [dif_pos hlt]
    exact ⟨rfl, hrefines.location⟩
  · rw [next_outside hinside] at hnext hrefines
    have hstays : s'.nextIndex = s.nextIndex :=
      Int32.toInt_inj.mp (hrefines.location.trans hlocation.symm)
    refine ⟨⟨s.nextIndex, cmdEnd, s'.nextIndex⟩, s', location,
      by rw [StoreAction.exec, hnext]; rfl, hrefines, ?_, fun hcovers => ?_⟩
    · constructor
      · rintro ⟨location', hlocation', hright⟩
        obtain rfl : location' = location := by
          have := hlocation'.symm.trans hlocation
          exact_mod_cast this
        by_contra hnot
        have hlt : location' < buf.length := by
          by_contra hge
          exact hnot (Or.inr (Nat.le_of_not_lt hge))
        rw [dif_pos hlt] at hright
        -- the location was not advanced
        have hbehind := hright.2
        rw [show s'.nextIndex.toInt = location' from hrefines.location] at hbehind
        omega
      · rintro (hcovered | hend)
        · exact absurd hcovered hinside
        · refine ⟨location, hlocation, ?_⟩
          rw [dif_neg (Nat.not_lt.mpr hend)]
          exact ⟨rfl, hstays⟩
    · exact (if_neg (Nat.not_lt.mpr (hcovers.resolve_left hinside))).symm

/-- **A run** from any location: it does not leave the program, and its fetches are right exactly if
the store covers the locations where they should be made. By induction on the actions; behind a
fetch that is wrong nothing more is compared. -/
theorem run_refines (h : s.Refines ((BytecodeStore.ofArray buf).seek location))
    (actions : List StoreAction) :
    ∃ fetches s', StoreAction.run s actions = ok (fetches, s') ∧
      ((∀ f ∈ fetches, f.Right buf) ↔
        ∀ l ∈ StoreAction.fetchLocations buf.length location actions, CoversLocation buf l) := by
  induction actions generalizing s location with
  | nil => exact ⟨[], s, rfl, iff_of_true (List.forall_mem_nil _) (List.forall_mem_nil _)⟩
  | cons action actions ih =>
      cases action with
      | fetch =>
          obtain ⟨f, s', behind, hexec, hrefines, hright, hbehind⟩ := exec_fetch h
          obtain ⟨fetches, s'', hrun, hrest⟩ := ih hrefines
          refine ⟨f :: fetches, s'', StoreAction.run_cons hexec hrun, ?_⟩
          rw [List.forall_mem_cons, StoreAction.fetchLocations, List.forall_mem_cons, hright]
          refine and_congr_right fun hcovers => ?_
          rw [hrest, hbehind hcovers]
      | seek address =>
          obtain ⟨fetches, s', hrun, hrest⟩ := ih (h.seek (toInt_address address))
          have hexec : StoreAction.exec (.seek address) s =
              ok ([], s.seek (Int32.ofNat address.val.toNat)) := rfl
          exact ⟨fetches, s', StoreAction.run_cons hexec hrun, hrest⟩
      | rewind =>
          obtain ⟨fetches, s', hrun, hrest⟩ := ih h.rewind
          have hexec : StoreAction.exec .rewind s = ok ([], s.rewind) := rfl
          exact ⟨fetches, s', StoreAction.run_cons hexec hrun, hrest⟩

/-- What a run fetches from the store of a program. -/
theorem exists_fetches (buf : List UInt8) (actions : List StoreAction) :
    ∃ fetches s, StoreAction.run (.ofProgram ⟨buf, buf.length⟩) actions = ok (fetches, s) ∧
      ((∀ f ∈ fetches, f.Right buf) ↔
        ∀ l ∈ StoreAction.fetchLocations buf.length 0 actions, CoversLocation buf l) :=
  run_refines (refines_ofProgram rfl) actions

/-- The store covers all locations of a run that fetches the right bytes. -/
theorem FetchesRight.covers {actions : List StoreAction} (h : FetchesRight buf actions) :
    ∀ l ∈ StoreAction.fetchLocations buf.length 0 actions, CoversLocation buf l := by
  obtain ⟨program, fetches, s, hinit, hrun, hright⟩ := h
  obtain ⟨fetches', s', hrun', hcovers⟩ := exists_fetches buf actions
  obtain rfl := Except.ok.inj hinit
  cases hrun.symm.trans hrun'
  exact hcovers.mp hright

/-- A run that is covered by the store fetches the right bytes. -/
theorem fetchesRight_of_covers {actions : List StoreAction}
    (h : ∀ l ∈ StoreAction.fetchLocations buf.length 0 actions, CoversLocation buf l) :
    FetchesRight buf actions := by
  obtain ⟨fetches, s, hrun, hcovers⟩ := exists_fetches buf actions
  exact ⟨_, fetches, s, rfl, hrun, hcovers.mpr h⟩

/-- **The bytes that are fetched** in a run are the bytes of the program, and the end of the program
behind them, if and only if the store covers all locations where the run should fetch: for every
program, and every sequence of fetches, seeks to valid addresses and rewinds. -/
theorem fetches_right_iff (buf : List UInt8) (actions : List StoreAction) :
    FetchesRight buf actions ↔
      ∀ location ∈ StoreAction.fetchLocations buf.length 0 actions, CoversLocation buf location :=
  ⟨FetchesRight.covers, fetchesRight_of_covers⟩

/-- The first byte of a program of 65536 bytes: its store has no size. -/
theorem longProgram_readsEnd : ¬ FetchesRight (List.replicate 65536 0x01) [.fetch] := by
  intro h
  have hzero := h.covers 0 (List.mem_cons_self ..)
  rw [CoversLocation, List.length_replicate] at hzero
  exact absurd hzero (by decide)

/-- **The programs whose bytes are right** in all runs are those of fewer than `2 ^ 16` bytes: the
store covers all of them, and no location behind its own size in any other one. -/
theorem fetchesRight_forall_iff (buf : List UInt8) :
    (∀ actions, FetchesRight buf actions) ↔ buf.length < 2 ^ 16 := by
  constructor
  · intro hall
    have hlt : buf.length % 2 ^ 16 < 2 ^ 16 := Nat.mod_lt _ (by decide)
    obtain ⟨address, haddress⟩ : ∃ address : Address, address.val.toNat = buf.length % 2 ^ 16 := by
      have hword : (UInt64.ofNat (buf.length % 2 ^ 16)).toNat = buf.length % 2 ^ 16 :=
        UInt64.toNat_ofNat_of_lt' (hlt.trans (by decide))
      have hvalid : isAddressValid (UInt64.ofNat (buf.length % 2 ^ 16)).toNat = true := by
        rw [hword, isAddressValid, decide_eq_true_eq]
        omega
      exact ⟨⟨_, hvalid⟩, hword⟩
    have hcovers := (hall [.seek address, .fetch]).covers address.val.toNat (List.mem_cons_self ..)
    rw [CoversLocation, haddress] at hcovers
    omega
  · intro hshort actions
    refine fetchesRight_of_covers fun location _ => ?_
    rw [CoversLocation, Nat.mod_eq_of_lt hshort]
    exact Nat.lt_or_ge location buf.length

end Runs

end Skybrush
