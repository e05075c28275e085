import Skybrush.Varuint

/-!
# Variable-Length Integers in Machine Words

`sb_parse_varuint32` with the words that it is written in: an accumulator of 32 bits, and two
counters of 8 bits of which the second one counts down from 32. What an addition to the
accumulator does is a parameter of the loop. In the source it wraps around; with
`addExactly` a bit that is lost is a fault. The two never differ, and
both agree with the parser over the natural numbers.

The buffer consists of the `num_bytes` bytes that the parser may read, so a read at or beyond the
length is a fault as well.

## Main results

* `parseVaruint32Words_eq`: the words are wide enough.
* `varuint32_parsed`: what the parser in machine words does, and that it loses no bits.
-/

namespace Skybrush

open Checked Base128

/-! ### The parser in machine words -/

/-- `value + (((uint32_t)(byte & 0x7f)) << num_bits)`, which wraps around. -/
def addWrapping (value : UInt32) (byte numBits : UInt8) : Checked SbError UInt32 :=
  ok (value + (byte &&& 0x7F).toUInt32 <<< numBits.toUInt32)

/-- The same, but a shift by too many bits and the loss of any bit of the sum are faults. -/
def addExactly (value : UInt32) (byte numBits : UInt8) : Checked SbError UInt32 :=
  let sum := value.toNat + payload byte <<< numBits.toNat
  if numBits < 32 ∧ sum < 2 ^ 32 then ok (UInt32.ofNat sum) else fault

/-- The first loop of `sb_parse_varuint32`, with fuel and an addition to the accumulator. -/
def varuint32WordLoop (add : UInt32 → UInt8 → UInt8 → Checked SbError UInt32) :
    ℕ → UInt32 → UInt8 → UInt8 → Parser SbError UInt8 (Except SbError ℕ)
  | 0, _, _, _, _, _ => outOfFuel
  | fuel + 1, value, numBits, bitsLeft, buf, offset =>
      if buf.length ≤ offset then
        ok (.error .eparse, offset)
      else do
        let byte ← read buf offset
        let offset := offset + 1
        if bitsLeft < 7 ∧ 0 < byte.toNat >>> bitsLeft.toNat then
          skipVaruint32 (buf.length + 1) byte buf offset
        else
          let value ← add value byte numBits
          if !continues byte then
            ok (.ok value.toNat, offset)
          else
            let numBits := numBits + 7
            let bitsLeft := bitsLeft - 7
            if 31 < numBits then
              skipVaruint32 (buf.length + 1) byte buf offset
            else
              varuint32WordLoop add fuel value numBits bitsLeft buf offset

/-- `sb_parse_varuint32`, in machine words. -/
def parseVaruint32Words (add : UInt32 → UInt8 → UInt8 → Checked SbError UInt32) :
    Parser SbError UInt8 (Except SbError ℕ) := fun buf offset =>
  varuint32WordLoop add (buf.length + 1) 0 0 32 buf offset

/-! ### The words are wide enough -/

/-- An addition that is right as long as nothing is lost. -/
def Lossless (add : UInt32 → UInt8 → UInt8 → Checked SbError UInt32) : Prop :=
  ∀ (value : UInt32) (byte numBits : UInt8), numBits < 32 →
    value.toNat + payload byte <<< numBits.toNat < 2 ^ 32 →
      add value byte numBits = ok (UInt32.ofNat (value.toNat + payload byte <<< numBits.toNat))

theorem lossless_addExactly : Lossless addExactly := by
  intro value byte numBits hbits hsum
  simp only [addExactly, if_pos (And.intro hbits hsum)]

theorem lossless_addWrapping : Lossless addWrapping := by
  intro value byte numBits hbits hsum
  have hlt : numBits.toNat < 32 := UInt8.lt_iff_toNat_lt.mp hbits
  have hpayload : (byte &&& 0x7F).toUInt32.toNat = payload byte := by
    rw [UInt8.toNat_toUInt32]
    rfl
  rw [addWrapping]
  congr 1
  apply UInt32.toNat_inj.mp
  rw [UInt32.toNat_ofNat', UInt32.toNat_add, UInt32.toNat_shiftLeft, hpayload,
    UInt8.toNat_toUInt32, Nat.mod_eq_of_lt hlt]
  omega

section Agreement

variable {add : UInt32 → UInt8 → UInt8 → Checked SbError UInt32} {buf : List UInt8}

/-- The `j`-th addition loses nothing, unless the fifth byte is too large. -/
theorem Lossless.add_eq (hadd : Lossless add) {j : ℕ} (hj : j ≤ 4) {value : UInt32}
    (hvalue : value.toNat < 2 ^ (7 * j)) {b : UInt8} (hb : ¬ (j = 4 ∧ 16 ≤ b.toNat)) :
    value.toNat + payload b * 2 ^ (7 * j) < 2 ^ 32 ∧
      add value b (UInt8.ofNat (7 * j)) =
        ok (UInt32.ofNat (value.toNat + payload b * 2 ^ (7 * j))) := by
  have hpayload := payload_eq b
  have hlt := payload_lt b
  have hbits : (UInt8.ofNat (7 * j)).toNat = 7 * j := UInt8.toNat_ofNat_of_lt' (by
    change 7 * j < 256
    omega)
  have hsmall : UInt8.ofNat (7 * j) < 32 := by
    rw [UInt8.lt_iff_toNat_lt, hbits]
    change 7 * j < 32
    omega
  have hsum : value.toNat + payload b * 2 ^ (7 * j) < 2 ^ 32 := by
    interval_cases j <;> omega
  have hshift : payload b <<< (UInt8.ofNat (7 * j)).toNat = payload b * 2 ^ (7 * j) := by
    rw [hbits, Nat.shiftLeft_eq]
  have hexact := hadd value b (UInt8.ofNat (7 * j)) hsmall
  rw [hshift] at hexact
  exact ⟨hsum, hexact hsum⟩

/-- The counters for the next byte. -/
theorem counters_succ {j : ℕ} (hj : j + 1 ≤ 4) :
    UInt8.ofNat (7 * j) + 7 = UInt8.ofNat (7 * (j + 1)) ∧
      UInt8.ofNat (32 - 7 * j) - 7 = UInt8.ofNat (32 - 7 * (j + 1)) := by
  obtain hj | hj | hj | hj : j = 0 ∨ j = 1 ∨ j = 2 ∨ j = 3 := by omega
  all_goals subst hj; decide

/-- **The two loops agree**, from the `j`-th byte on: by induction on the fuel of the loop in
machine words, with the two counters as functions of `j`. -/
theorem varuint32WordLoop_eq (hadd : Lossless add) {fuel j offset : ℕ} (hj : j ≤ 4)
    (hfuel : buf.length - offset < fuel) {value : UInt32} (hvalue : value.toNat < 2 ^ (7 * j)) :
    varuint32WordLoop add fuel value (UInt8.ofNat (7 * j)) (UInt8.ofNat (32 - 7 * j)) buf offset =
      varuint32Loop (5 - j) value.toNat (7 * j) (32 - 7 * j) buf offset := by
  induction fuel generalizing j offset value with
  | zero => omega
  | succ fuel ih =>
      obtain ⟨rest, hrest⟩ : ∃ rest, 5 - j = rest + 1 := ⟨4 - j, by omega⟩
      have hleft : (UInt8.ofNat (32 - 7 * j)).toNat = 32 - 7 * j := UInt8.toNat_ofNat_of_lt' (by
        change 32 - 7 * j < 256
        omega)
      have hseven : UInt8.ofNat (32 - 7 * j) < 7 ↔ 32 - 7 * j < 7 := by
        rw [UInt8.lt_iff_toNat_lt, hleft]
        rfl
      rw [hrest, varuint32WordLoop, varuint32Loop]
      split
      case isTrue => rfl
      case isFalse hinside =>
        rw [read_of_lt (by omega), ok_bind, ok_bind]
        generalize buf[offset] = b
        simp only [hleft, hseven]
        split
        case isTrue => rfl
        case isFalse hfits =>
          have hb : ¬ (j = 4 ∧ 16 ≤ b.toNat) := by
            rintro ⟨rfl, hge⟩
            refine hfits ⟨by omega, ?_⟩
            rw [Nat.shiftRight_eq_div_pow]
            omega
          obtain ⟨hsum, hexact⟩ := hadd.add_eq hj hvalue hb
          have hmod : (value.toNat + payload b <<< (7 * j)) % 2 ^ 32 =
              value.toNat + payload b * 2 ^ (7 * j) := by
            rw [Nat.shiftLeft_eq, Nat.mod_eq_of_lt hsum]
          have hword : (UInt32.ofNat (value.toNat + payload b * 2 ^ (7 * j))).toNat =
              value.toNat + payload b * 2 ^ (7 * j) := UInt32.toNat_ofNat_of_lt' hsum
          rw [hexact, ok_bind, hmod, hword]
          split
          case isTrue => rfl
          case isFalse hmore =>
            have hpayload := payload_lt b
            have hbyte : 128 ≤ b.toNat := (continues_iff b).mp (by simpa using hmore)
            have hnext : j + 1 ≤ 4 := by omega
            obtain ⟨hbits, hleft'⟩ := counters_succ hnext
            have hvalue' : (UInt32.ofNat (value.toNat + payload b * 2 ^ (7 * j))).toNat <
                2 ^ (7 * (j + 1)) := by
              have hroom := Nat.mul_le_mul_right (2 ^ (7 * j)) (show payload b + 1 ≤ 128 by omega)
              rw [Nat.add_one_mul] at hroom
              have hpow : 2 ^ (7 * (j + 1)) = 128 * 2 ^ (7 * j) := by
                rw [Nat.mul_add, pow_add, Nat.mul_comm]
                rfl
              rw [hword, hpow]
              omega
            have hgo : ¬ 31 < UInt8.ofNat (7 * (j + 1)) := by
              rw [UInt8.lt_iff_toNat_lt, UInt8.toNat_ofNat_of_lt' (show 7 * (j + 1) < 256 by omega)]
              change ¬ 31 < 7 * (j + 1)
              omega
            have hloop := ih hnext (show buf.length - (offset + 1) < fuel by omega) hvalue'
            have hrest' : 5 - (j + 1) = rest := by omega
            rw [hbits, hleft', if_neg hgo, hloop, if_neg (show ¬ 31 < 7 * j + 7 by omega), hword,
              hrest']
            rfl

/-- **The words are wide enough**: the parser in machine words agrees with the one over the natural
numbers. -/
theorem parseVaruint32Words_eq (hadd : Lossless add) (offset : ℕ) :
    parseVaruint32Words add buf offset = parseVaruint32 buf offset :=
  varuint32WordLoop_eq hadd (Nat.zero_le 4) (show buf.length - offset < buf.length + 1 by omega)
    (show (0 : UInt32).toNat < 2 ^ (7 * 0) by decide)

end Agreement

/-! ### The parser is right -/

/-- **Variable-length integers are parsed** as they should be, for every buffer and every offset:
the parser in machine words loses no bits, returns without leaving the buffer what the
distance to the first byte that does not continue tells, and reads back every number of 32 bits
that was encoded. -/
theorem varuint32_parsed :
    (∀ (buf : List UInt8) (offset : ℕ),
      parseVaruint32Words addExactly buf offset = parseVaruint32Words addWrapping buf offset ∧
        parseVaruint32Words addWrapping buf offset = ok (varuint32Outcome buf offset)) ∧
      ∀ (n : UInt32) (before after : List UInt8),
        parseVaruint32Words addWrapping (before ++ (encode n.toNat ++ after)) before.length =
          ok (.ok n.toNat, before.length + (encode n.toNat).length) := by
  refine ⟨fun buf offset => ⟨?_, ?_⟩, fun n before after => ?_⟩
  · rw [parseVaruint32Words_eq lossless_addExactly, parseVaruint32Words_eq lossless_addWrapping]
  · rw [parseVaruint32Words_eq lossless_addWrapping, parseVaruint32_eq]
  · have hn : n.toNat < 2 ^ 32 := n.toNat_lt
    have hlength : (encode n.toNat).length ≤ 5 :=
      length_encode_le (by decide) (hn.trans_le (by norm_num))
    rw [parseVaruint32Words_eq lossless_addWrapping,
      parseVaruint32_complete before after (complete_encode n.toNat), value_encode,
      if_pos ⟨hlength, hn⟩]

/-- The fifth byte may carry four bits. -/
example : varuint32Outcome [0xFF, 0xFF, 0xFF, 0xFF, 0x0F] 0 = (.ok (2 ^ 32 - 1), 5) ∧
    varuint32Outcome [0xFF, 0xFF, 0xFF, 0xFF, 0x10] 0 = (.error .eoverflow, 5) ∧
    varuint32Outcome [0xFF, 0xFF, 0xFF, 0xFF] 1 = (.error .eparse, 4) := by
  decide +kernel

end Skybrush
