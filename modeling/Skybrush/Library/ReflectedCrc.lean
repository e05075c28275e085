import Mathlib.Tactic.Common

/-!
# Reflected Cyclic Redundancy Checks

A reflected CRC is a register that is shifted to the right: one bit at a time, and the
polynomial is added whenever a set bit falls out. A byte is fed by adding it to the low end
of the register and shifting eight times. Addition is exclusive or, so shifting is linear;
it is one-to-one as well when the polynomial has its highest bit set.

## Main results

* `ReflectedCrc.shifts_xor`: shifting is linear.
* `ReflectedCrc.shifts_of_low`: bits that do not reach the low end are only moved.
* `ReflectedCrc.shifts_injective`: shifting loses nothing.
* `ReflectedCrc.feed_eq_shifts`: a few bytes may be added all at once before shifting.
* `ReflectedCrc.feed_burst_ne`: two messages that differ in as many bytes as the register
  has, or fewer, side by side, leave different registers.
-/

namespace ReflectedCrc

variable {w : ℕ} (poly : BitVec w)

/-- Shift by one bit, and add the polynomial if the bit that falls out is set. -/
def shift (x : BitVec w) : BitVec w := if x.getLsbD 0 then x >>> 1 ^^^ poly else x >>> 1

/-- Shift by a number of bits. -/
def shifts : ℕ → BitVec w → BitVec w
  | 0, x => x
  | n + 1, x => shifts n (shift poly x)

/-- A byte at the low end of a register. -/
def ofByte (w : ℕ) (byte : UInt8) : BitVec w := BitVec.ofNat w byte.toNat

/-- Feed one byte. -/
def feedByte (x : BitVec w) (byte : UInt8) : BitVec w := shifts poly 8 (x ^^^ ofByte w byte)

/-- Feed a sequence of bytes. -/
def feed (x : BitVec w) (bytes : List UInt8) : BitVec w := bytes.foldl (feedByte poly) x

theorem feed_append (x : BitVec w) (bytes bytes' : List UInt8) :
    feed poly x (bytes ++ bytes') = feed poly (feed poly x bytes) bytes' := List.foldl_append

/-! ### Linearity -/

/-- Shifting by one bit is linear. -/
theorem shift_xor (x y : BitVec w) : shift poly (x ^^^ y) = shift poly x ^^^ shift poly y := by
  simp only [shift, BitVec.getLsbD_xor, BitVec.ushiftRight_xor_distrib]
  cases x.getLsbD 0 <;> cases y.getLsbD 0
  · rfl
  · exact BitVec.xor_assoc _ _ _
  · simp only [Bool.bne_false, if_true, Bool.false_eq_true, if_false]
    rw [BitVec.xor_assoc, BitVec.xor_assoc, BitVec.xor_comm poly]
  · simp only [bne_self_eq_false, if_true, Bool.false_eq_true, if_false]
    rw [BitVec.xor_comm (y >>> 1), BitVec.xor_assoc, ← BitVec.xor_assoc poly, BitVec.xor_self,
      BitVec.zero_xor]

/-- **Shifting is linear.** -/
theorem shifts_xor (n : ℕ) (x y : BitVec w) :
    shifts poly n (x ^^^ y) = shifts poly n x ^^^ shifts poly n y := by
  induction n generalizing x y with
  | zero => rfl
  | succ n ih => rw [shifts, shift_xor, ih, shifts, shifts]

theorem shifts_add (m n : ℕ) (x : BitVec w) :
    shifts poly (m + n) x = shifts poly n (shifts poly m x) := by
  induction m generalizing x with
  | zero => rw [Nat.zero_add, shifts]
  | succ m ih => rw [Nat.add_right_comm, shifts, shifts, ih]

/-- Bits that do not reach the low end are only moved. -/
theorem shifts_of_low {n : ℕ} {x : BitVec w} (h : ∀ i < n, x.getLsbD i = false) :
    shifts poly n x = x >>> n := by
  induction n generalizing x with
  | zero => exact (BitVec.ushiftRight_zero x).symm
  | succ n ih =>
      have hshift : shift poly x = x >>> 1 := by
        rw [shift, h 0 (Nat.succ_pos n)]
        rfl
      have hlow : ∀ i < n, (x >>> 1).getLsbD i = false := by
        intro i hi
        rw [BitVec.getLsbD_ushiftRight]
        exact h (1 + i) (by omega)
      rw [shifts, hshift, ih hlow, ← BitVec.shiftRight_add, Nat.add_comm]

/-- What is moved up first comes back. -/
theorem shifts_shiftLeft {n : ℕ} {x : BitVec w} (h : ∀ i, w - n ≤ i → x.getLsbD i = false) :
    shifts poly n (x <<< n) = x := by
  have hlow : ∀ i < n, (x <<< n).getLsbD i = false := by
    intro i hi
    simp [BitVec.getLsbD_shiftLeft, hi]
  rw [shifts_of_low poly hlow]
  refine BitVec.eq_of_getLsbD_eq fun i hi => ?_
  rw [BitVec.getLsbD_ushiftRight, BitVec.getLsbD_shiftLeft, Nat.add_sub_cancel_left]
  by_cases hfit : n + i < w
  · simp [hfit]
  · rw [h i (by omega), Bool.and_false]

/-! ### Nothing is lost -/

variable {poly} (hpoly : poly.msb = true)
include hpoly

/-- Only the empty register becomes empty. -/
theorem eq_zero_of_shift {x : BitVec w} (h : shift poly x = 0#w) : x = 0#w := by
  have hpos : 0 < w := by
    refine Nat.pos_of_ne_zero ?_
    rintro rfl
    rw [BitVec.of_length_zero (x := poly)] at hpoly
    cases hpoly
  have hhigh : (x >>> 1).getLsbD (w - 1) = false := by
    rw [BitVec.getLsbD_ushiftRight]
    exact BitVec.getLsbD_of_ge _ _ (by omega)
  cases hlow : x.getLsbD 0 with
  | true =>
      -- the polynomial sets the highest bit
      rw [shift, hlow, if_pos rfl] at h
      have hbit := congrArg (fun y : BitVec w => y.getLsbD (w - 1)) h
      rw [BitVec.msb_eq_getLsbD_last] at hpoly
      simp only [BitVec.getLsbD_xor, hhigh, hpoly, BitVec.getLsbD_zero] at hbit
      cases hbit
  | false =>
      rw [shift, hlow, if_neg Bool.false_ne_true] at h
      refine BitVec.eq_of_getLsbD_eq fun i hi => ?_
      rw [BitVec.getLsbD_zero]
      cases i with
      | zero => exact hlow
      | succ i =>
          have hbit := congrArg (fun y : BitVec w => y.getLsbD i) h
          simp only [BitVec.getLsbD_ushiftRight, BitVec.getLsbD_zero] at hbit
          rw [Nat.add_comm]
          exact hbit

/-- **Shifting loses nothing.** -/
theorem shifts_injective (n : ℕ) : Function.Injective (shifts poly n) := by
  induction n with
  | zero => exact fun _ _ h => h
  | succ n ih =>
      intro x y h
      have hsame : shift poly x = shift poly y := ih h
      have hzero : shift poly (x ^^^ y) = 0#w := by
        rw [shift_xor, hsame]
        exact BitVec.xor_self
      exact BitVec.xor_eq_zero_iff.mp (eq_zero_of_shift hpoly hzero)

omit hpoly

/-! ### Bursts -/

/-- A few bytes side by side, the first one at the low end. -/
def word (w : ℕ) : List UInt8 → BitVec w
  | [] => 0#w
  | byte :: bytes => ofByte w byte ^^^ word w bytes <<< 8

theorem getLsbD_ofByte {byte : UInt8} {i : ℕ} (h : 8 ≤ i) : (ofByte w byte).getLsbD i = false := by
  have hlt : byte.toNat < 2 ^ i :=
    Nat.lt_of_lt_of_le byte.toNat_lt (Nat.pow_le_pow_right (by decide) h)
  rw [ofByte, BitVec.getLsbD_ofNat, Nat.testBit_lt_two_pow hlt, Bool.and_false]

/-- A word of a few bytes does not reach further up than they do. -/
theorem getLsbD_word {bytes : List UInt8} {i : ℕ} (h : 8 * bytes.length ≤ i) :
    (word w bytes).getLsbD i = false := by
  induction bytes generalizing i with
  | nil => exact BitVec.getLsbD_zero
  | cons byte bytes ih =>
      rw [List.length_cons] at h
      rw [word, BitVec.getLsbD_xor, getLsbD_ofByte (by omega), BitVec.getLsbD_shiftLeft,
        ih (by omega), Bool.and_false]
      rfl

theorem getLsbD_word_cons_low (byte : UInt8) (bytes : List UInt8) {i : ℕ} (h : i < 8)
    (hw : i < w) : (word w (byte :: bytes)).getLsbD i = byte.toNat.testBit i := by
  simp only [word, BitVec.getLsbD_xor, BitVec.getLsbD_shiftLeft, ofByte, BitVec.getLsbD_ofNat,
    decide_eq_true h, decide_eq_true hw, Bool.true_and, Bool.not_true, Bool.and_false,
    Bool.false_and, Bool.bne_false]

theorem getLsbD_word_cons_high (byte : UInt8) (bytes : List UInt8) {i : ℕ} (hw : 8 + i < w) :
    (word w (byte :: bytes)).getLsbD (8 + i) = (word w bytes).getLsbD i := by
  have hnot : decide (8 + i < 8) = false := decide_eq_false (by omega)
  simp only [word, BitVec.getLsbD_xor, BitVec.getLsbD_shiftLeft,
    getLsbD_ofByte (Nat.le_add_right 8 i), decide_eq_true hw, hnot, Bool.true_and, Bool.not_false,
    Bool.false_bne, Nat.add_sub_cancel_left]

/-- **A few bytes may be added all at once** before shifting, if the register has room for
them. -/
theorem feed_eq_shifts {bytes : List UInt8} (h : 8 * bytes.length ≤ w) (x : BitVec w) :
    feed poly x bytes = shifts poly (8 * bytes.length) (x ^^^ word w bytes) := by
  induction bytes generalizing x with
  | nil => exact (BitVec.xor_zero (x := x)).symm
  | cons byte bytes ih =>
      rw [List.length_cons] at h
      have hback : shifts poly 8 (word w bytes <<< 8) = word w bytes :=
        shifts_shiftLeft poly fun i hi => getLsbD_word (by omega)
      have hlength : 8 * (byte :: bytes).length = 8 + 8 * bytes.length := by
        rw [List.length_cons]
        omega
      calc feed poly x (byte :: bytes) = feed poly (feedByte poly x byte) bytes := rfl
        _ = shifts poly (8 * bytes.length) (feedByte poly x byte ^^^ word w bytes) :=
            ih (by omega) _
        _ = shifts poly (8 * bytes.length) (shifts poly 8 (x ^^^ word w (byte :: bytes))) := by
            rw [word, ← BitVec.xor_assoc, shifts_xor poly 8, hback, feedByte]
        _ = shifts poly (8 * (byte :: bytes).length) (x ^^^ word w (byte :: bytes)) := by
            rw [hlength, shifts_add]

/-- Different bytes make different words, if the register has room for them. -/
theorem word_injective {bytes bytes' : List UInt8} (hlength : bytes'.length = bytes.length)
    (hfits : 8 * bytes.length ≤ w) (h : word w bytes = word w bytes') : bytes = bytes' := by
  induction bytes generalizing bytes' with
  | nil => exact (List.eq_nil_of_length_eq_zero hlength).symm
  | cons byte bytes ih =>
      cases bytes' with
      | nil => cases hlength
      | cons byte' bytes' =>
          rw [List.length_cons] at hfits
          have hlength' : bytes'.length = bytes.length := Nat.succ.inj hlength
          have hbyte : byte = byte' := by
            refine UInt8.toNat_inj.mp (Nat.eq_of_testBit_eq fun i => ?_)
            rcases Nat.lt_or_ge i 8 with hlt | hge
            · have hw : i < w := by omega
              rw [← getLsbD_word_cons_low byte bytes hlt hw, h,
                getLsbD_word_cons_low byte' bytes' hlt hw]
            · have hpow : 2 ^ 8 ≤ 2 ^ i := Nat.pow_le_pow_right (by decide) hge
              rw [Nat.testBit_lt_two_pow (Nat.lt_of_lt_of_le byte.toNat_lt hpow),
                Nat.testBit_lt_two_pow (Nat.lt_of_lt_of_le byte'.toNat_lt hpow)]
          have hrest : word w bytes = word w bytes' := by
            refine BitVec.eq_of_getLsbD_eq fun i hi => ?_
            rcases Nat.lt_or_ge (8 + i) w with hlt | hge
            · rw [← getLsbD_word_cons_high byte bytes hlt, h,
                getLsbD_word_cons_high byte' bytes' hlt]
            · rw [getLsbD_word (by omega), getLsbD_word (by omega)]
          rw [hbyte, ih hlength' (by omega) hrest]

/-- Feeding the same bytes keeps different registers different. -/
theorem feed_injective (hpoly : poly.msb = true) (bytes : List UInt8) :
    Function.Injective fun x => feed poly x bytes := by
  induction bytes with
  | nil => exact fun _ _ h => h
  | cons byte bytes ih =>
      intro x y h
      have hsame : feedByte poly x byte = feedByte poly y byte := ih h
      exact (BitVec.xor_left_inj _).mp (shifts_injective hpoly 8 hsame)

/-- **A burst is noticed**: two messages that differ in a few bytes side by side leave
different registers, if the register has room for those bytes. -/
theorem feed_burst_ne (hpoly : poly.msb = true) (x : BitVec w) (before after : List UInt8)
    {burst burst' : List UInt8} (hlength : burst'.length = burst.length)
    (hfits : 8 * burst.length ≤ w) (hne : burst ≠ burst') :
    feed poly x (before ++ burst ++ after) ≠ feed poly x (before ++ burst' ++ after) := by
  intro h
  have hfits' : 8 * burst'.length ≤ w := by rwa [hlength]
  rw [feed_append, feed_append, feed_append, feed_append] at h
  have hburst : feed poly (feed poly x before) burst = feed poly (feed poly x before) burst' :=
    feed_injective hpoly after h
  rw [feed_eq_shifts hfits, feed_eq_shifts hfits', hlength] at hburst
  have hword := (BitVec.xor_right_inj _).mp (shifts_injective hpoly _ hburst)
  exact hne (word_injective hlength hfits hword)

end ReflectedCrc
