import Mathlib.Tactic.IntervalCases
import Skybrush.Parsing

/-!
# Variable-Length Integers

The parser of the variable-length integers in the binary formats, `sb_parse_varuint32`. It
is the only parser that knows how long its buffer is. It accepts integers of at most 32
bits; what is too large is skipped up to its last byte.

The offset moves on whether or not an integer is found, so the result is an `Except` inside
a parser that does not fail; `Parser.check` is the macro `SB_CHECK` around it.

## Main results

* `parseVaruint32_complete`: a complete sequence of bytes is read, and its value returned if it
  fits into 32 bits.
* `parseVaruint32_cut`: a sequence that is not complete is an error.
* `parseVaruint32_eq`: what the parser does, by the distance to the first byte that does not
  continue.
* `parseVaruint32_ok`: the parser never reads outside the buffer.
* `reads_varuint32`: reading back what was encoded.
-/

namespace Skybrush

open Checked Base128

/-- The second loop of `sb_parse_varuint32`, with fuel: the integer is too large, and the rest
of it is skipped. -/
def skipVaruint32 : ℕ → UInt8 → Parser SbError UInt8 (Except SbError ℕ)
  | 0, _, _, _ => outOfFuel
  | fuel + 1, byte, buf, offset =>
      if !continues byte then
        ok (.error .eoverflow, offset)
      else if buf.length ≤ offset then
        ok (.error .eparse, offset)
      else do
        let byte ← read buf offset
        skipVaruint32 fuel byte buf (offset + 1)

/-- The first loop of `sb_parse_varuint32`, with fuel. -/
def varuint32Loop : ℕ → ℕ → ℕ → ℕ → Parser SbError UInt8 (Except SbError ℕ)
  | 0, _, _, _, _, _ => outOfFuel
  | fuel + 1, value, numBits, bitsLeft, buf, offset =>
      if buf.length ≤ offset then
        ok (.error .eparse, offset)
      else do
        let byte ← read buf offset
        let offset := offset + 1
        if bitsLeft < 7 ∧ 0 < byte.toNat >>> bitsLeft then
          skipVaruint32 (buf.length + 1) byte buf offset
        else
          let value := (value + payload byte <<< numBits) % 2 ^ 32
          if !continues byte then
            ok (.ok value, offset)
          else if 31 < numBits + 7 then
            skipVaruint32 (buf.length + 1) byte buf offset
          else
            varuint32Loop fuel value (numBits + 7) (bitsLeft - 7) buf offset

/-- `sb_parse_varuint32`. -/
def parseVaruint32 : Parser SbError UInt8 (Except SbError ℕ) := varuint32Loop 5 0 0 32

/-! ### What a byte does -/

section Steps

variable {before rest after bs : List UInt8} {fuel : ℕ} {byte b : UInt8}

/-- The next byte is the one behind those that were read. -/
theorem read_next : (read (before ++ b :: rest) before.length : Checked SbError UInt8) = ok b :=
  read_eq_ok.mpr (by simp)

theorem not_length_le : ¬ (before ++ b :: rest).length ≤ before.length := by
  rw [List.length_append, List.length_cons]
  omega

/-- A byte further. -/
theorem length_snoc_add (before bs : List UInt8) (b : UInt8) :
    (before ++ [b]).length + bs.length = before.length + (b :: bs).length := by
  simp only [List.length_append, List.length_cons, List.length_nil]
  omega

/-- While bytes continue, another one is skipped. -/
theorem skipVaruint32_cons (h : continues byte = true) :
    skipVaruint32 (fuel + 1) byte (before ++ b :: rest) before.length =
      skipVaruint32 fuel b ((before ++ [b]) ++ rest) (before ++ [b]).length := by
  have hmore : ¬ (!continues byte) = true := by simp [h]
  rw [skipVaruint32, if_neg hmore, if_neg not_length_le, read_next, ok_bind, List.append_assoc,
    List.length_append]
  rfl

/-- The rest of an integer that is too large is skipped. -/
theorem skipVaruint32_complete (h : Complete (byte :: bs)) (hfuel : bs.length < fuel) :
    skipVaruint32 fuel byte (before ++ (bs ++ after)) before.length =
      ok (.error .eoverflow, before.length + bs.length) := by
  induction bs generalizing before fuel byte with
  | nil =>
      obtain ⟨fuel, rfl⟩ := Nat.exists_eq_succ_of_ne_zero (Nat.ne_of_gt hfuel)
      have hlast : continues byte = false := by
        by_contra hcontinues
        simp [Complete, hcontinues] at h
      simp only [skipVaruint32, hlast, Bool.not_false, if_true]
      rfl
  | cons b bs ih =>
      obtain ⟨fuel, rfl⟩ := Nat.exists_eq_succ_of_ne_zero (Nat.ne_of_gt (Nat.zero_lt_of_lt hfuel))
      rw [Complete] at h
      split at h
      case isTrue hcontinues =>
        rw [List.cons_append, skipVaruint32_cons hcontinues,
          ih h (Nat.lt_of_succ_lt_succ hfuel), length_snoc_add]
      case isFalse => cases h

/-- An integer that is too large may be cut. -/
theorem skipVaruint32_cut (h : ∀ b ∈ byte :: bs, continues b = true) (hfuel : bs.length < fuel) :
    skipVaruint32 fuel byte (before ++ bs) before.length =
      ok (.error .eparse, before.length + bs.length) := by
  have hbyte := h byte List.mem_cons_self
  induction bs generalizing before fuel byte with
  | nil =>
      obtain ⟨fuel, rfl⟩ := Nat.exists_eq_succ_of_ne_zero (Nat.ne_of_gt hfuel)
      simp only [skipVaruint32, hbyte, Bool.not_true, Bool.false_eq_true, if_false,
        List.append_nil, le_refl, if_true]
      rfl
  | cons b bs ih =>
      obtain ⟨fuel, rfl⟩ := Nat.exists_eq_succ_of_ne_zero (Nat.ne_of_gt (Nat.zero_lt_of_lt hfuel))
      have hrest : ∀ b' ∈ b :: bs, continues b' = true :=
        fun b' hb' => h b' (List.mem_cons_of_mem _ hb')
      rw [skipVaruint32_cons hbyte, ih hrest (Nat.lt_of_succ_lt_succ hfuel)
        (hrest b List.mem_cons_self), length_snoc_add]

/-- The next byte of the `j`-th group: too large, the last one, or one that continues. -/
theorem varuint32Loop_cons {j V : ℕ} (hj : j ≤ 4) (hV : V < 2 ^ (7 * j)) :
    varuint32Loop (5 - j) V (7 * j) (32 - 7 * j) (before ++ b :: rest) before.length =
      if j = 4 ∧ 16 ≤ b.toNat then
        skipVaruint32 ((before ++ b :: rest).length + 1) b ((before ++ [b]) ++ rest)
          (before ++ [b]).length
      else if continues b then
        varuint32Loop (5 - (j + 1)) (V + payload b * 2 ^ (7 * j)) (7 * (j + 1))
          (32 - 7 * (j + 1)) ((before ++ [b]) ++ rest) (before ++ [b]).length
      else
        ok (.ok (V + payload b * 2 ^ (7 * j)), before.length + 1) := by
  have hb : b.toNat < 256 := b.toNat_lt
  have hpayload := payload_eq b
  have hcontinues := continues_iff b
  obtain ⟨fuel, hfuel⟩ : ∃ fuel, 5 - j = fuel + 1 := ⟨4 - j, by omega⟩
  have hnext : 5 - (j + 1) = fuel := by omega
  have hlarge : (32 - 7 * j < 7 ∧ 0 < b.toNat >>> (32 - 7 * j)) ↔ j = 4 ∧ 16 ≤ b.toNat := by
    constructor
    · rintro ⟨hbits, hshift⟩
      obtain rfl : j = 4 := by omega
      rw [Nat.shiftRight_eq_div_pow] at hshift
      omega
    · rintro ⟨rfl, hge⟩
      rw [Nat.shiftRight_eq_div_pow]
      omega
  rw [hfuel, hnext, varuint32Loop, if_neg not_length_le, read_next, ok_bind]
  simp only [hlarge]
  by_cases hbig : j = 4 ∧ 16 ≤ b.toNat
  · simp only [if_pos hbig, List.append_assoc, List.singleton_append, List.length_append,
      List.length_singleton]
  · have hvalue : (V + payload b <<< (7 * j)) % 2 ^ 32 = V + payload b * 2 ^ (7 * j) := by
      rw [Nat.shiftLeft_eq]
      apply Nat.mod_eq_of_lt
      interval_cases j <;> omega
    rw [if_neg hbig, if_neg hbig, hvalue]
    cases hc : continues b with
    | false => rfl
    | true =>
        have hmore : ¬ 31 < 7 * j + 7 := by
          rw [hc] at hcontinues
          simp only [true_iff] at hcontinues
          omega
        have hbits : 32 - 7 * j - 7 = 32 - 7 * (j + 1) := by omega
        simp only [Bool.not_true, Bool.false_eq_true, if_false, hmore, if_true, hbits, Nat.mul_add,
          Nat.mul_one, List.append_assoc, List.singleton_append, List.length_append,
          List.length_singleton]

/-- The loop over a complete sequence, from the `j`-th group on: by induction on the
sequence, with what has been read before in `V`. -/
theorem varuint32Loop_complete {j V : ℕ} (hj : j ≤ 4) (hV : V < 2 ^ (7 * j)) (h : Complete bs) :
    varuint32Loop (5 - j) V (7 * j) (32 - 7 * j) (before ++ (bs ++ after)) before.length =
      ok (if bs.length ≤ 5 - j ∧ V + value bs * 2 ^ (7 * j) < 2 ^ 32 then
          .ok (V + value bs * 2 ^ (7 * j))
        else
          .error .eoverflow, before.length + bs.length) := by
  induction bs generalizing before j V with
  | nil => exact absurd h (by simp [Complete])
  | cons b bs ih =>
      have hpayload := payload_eq b
      have hcontinues := continues_iff b
      have hpos : continues b = true → 1 ≤ bs.length := by
        intro hc
        rw [Complete, if_pos hc] at h
        exact h.length_pos
      rw [List.cons_append, varuint32Loop_cons hj hV]
      by_cases hbig : j = 4 ∧ 16 ≤ b.toNat
      · -- Either the sequence goes on, or its fifth byte is too large.
        have hover : ¬ ((b :: bs).length ≤ 5 - j ∧ V + value (b :: bs) * 2 ^ (7 * j) < 2 ^ 32) := by
          obtain ⟨rfl, hge⟩ := hbig
          rintro ⟨hlength, hvalue⟩
          rw [List.length_cons] at hlength
          rw [value] at hvalue
          have hlast : ¬ continues b = true := fun hc => absurd (hpos hc) (by omega)
          rw [hcontinues] at hlast
          omega
        have hfuel : bs.length < (before ++ b :: (bs ++ after)).length + 1 := by
          simp only [List.length_append, List.length_cons]
          omega
        rw [if_pos hbig, skipVaruint32_complete h hfuel, if_neg hover, length_snoc_add]
      · rw [if_neg hbig]
        cases hc : continues b with
        | true =>
            have hbyte := hcontinues.mp hc
            have hj' : j + 1 ≤ 4 := by omega
            rw [Complete, if_pos hc] at h
            have hV' : V + payload b * 2 ^ (7 * j) < 2 ^ (7 * (j + 1)) := by
              interval_cases j <;> omega
            have hvalue : V + value (b :: bs) * 2 ^ (7 * j) =
                V + payload b * 2 ^ (7 * j) + value bs * 2 ^ (7 * (j + 1)) := by
              rw [value, Nat.mul_add 7, pow_add]
              ring
            have hlength : (b :: bs).length ≤ 5 - j ↔ bs.length ≤ 5 - (j + 1) := by
              rw [List.length_cons]
              omega
            rw [if_pos rfl, ih hj' hV' h, length_snoc_add]
            simp only [hvalue, hlength]
        | false =>
            have hbyte : ¬ 128 ≤ b.toNat := by
              rw [← hcontinues, hc]
              exact Bool.false_ne_true
            have hnil : bs = [] := by
              rw [Complete, if_neg (by simp [hc])] at h
              exact h
            have hvalue : value (b :: bs) = payload b := by
              rw [hnil, value, value]
              omega
            have hfit : (b :: bs).length ≤ 5 - j ∧ V + payload b * 2 ^ (7 * j) < 2 ^ 32 := by
              rw [hnil, List.length_singleton]
              refine ⟨by omega, ?_⟩
              interval_cases j <;> omega
            rw [hvalue, if_pos hfit, hnil]
            rfl

/-- The loop over a sequence that is cut. -/
theorem varuint32Loop_cut {j V : ℕ} (hj : j ≤ 4) (hV : V < 2 ^ (7 * j))
    (h : ∀ b ∈ bs, continues b = true) :
    varuint32Loop (5 - j) V (7 * j) (32 - 7 * j) (before ++ bs) before.length =
      ok (.error .eparse, before.length + bs.length) := by
  induction bs generalizing before j V with
  | nil =>
      obtain ⟨fuel, hfuel⟩ : ∃ fuel, 5 - j = fuel + 1 := ⟨4 - j, by omega⟩
      rw [hfuel, List.append_nil, varuint32Loop, if_pos le_rfl]
      rfl
  | cons b bs ih =>
      have hpayload := payload_eq b
      have hc := h b List.mem_cons_self
      have hbyte := (continues_iff b).mp hc
      have hrest : ∀ b' ∈ bs, continues b' = true := fun b' hb' => h b' (List.mem_cons_of_mem _ hb')
      rw [varuint32Loop_cons hj hV, if_pos hc]
      by_cases hlast : j = 4
      · have hfuel : bs.length < (before ++ b :: bs).length + 1 := by
          simp only [List.length_append, List.length_cons]
          omega
        rw [if_pos ⟨hlast, by omega⟩, skipVaruint32_cut h hfuel, length_snoc_add]
      · have hV' : V + payload b * 2 ^ (7 * j) < 2 ^ (7 * (j + 1)) := by
          interval_cases j <;> omega
        rw [if_neg fun hbig => hlast hbig.1, ih (by omega) hV' hrest, length_snoc_add]

end Steps

/-! ### What the parser does -/

section Parse

variable {bs : List UInt8} (before after : List UInt8)

/-- **A complete sequence** is read to its last byte, and accepted if it has at most five
bytes and its value fits into 32 bits. -/
theorem parseVaruint32_complete (h : Complete bs) :
    parseVaruint32 (before ++ (bs ++ after)) before.length =
      ok (if bs.length ≤ 5 ∧ value bs < 2 ^ 32 then .ok (value bs) else .error .eoverflow,
        before.length + bs.length) := by
  have hloop := @varuint32Loop_complete before after bs 0 0 (Nat.zero_le 4) (by decide) h
  simp only [Nat.mul_zero, Nat.pow_zero, Nat.mul_one, Nat.zero_add, Nat.sub_zero] at hloop
  exact hloop

/-- **A sequence that is cut** is an error. -/
theorem parseVaruint32_cut (h : ∀ b ∈ bs, continues b = true) :
    parseVaruint32 (before ++ bs) before.length =
      ok (.error .eparse, before.length + bs.length) :=
  varuint32Loop_cut (Nat.zero_le 4) (show 0 < 2 ^ (7 * 0) by decide) h

/-- Behind the end of the buffer there is nothing to read. -/
theorem parseVaruint32_of_ge {buf : List UInt8} {offset : ℕ} (h : buf.length ≤ offset) :
    parseVaruint32 buf offset = ok (.error .eparse, offset) := by
  rw [parseVaruint32, varuint32Loop, if_pos h]

/-- What `sb_parse_varuint32` returns and where it leaves the offset, by the distance from the
offset to the first byte that does not continue. -/
def varuint32Outcome (buf : List UInt8) (offset : ℕ) : Except SbError ℕ × ℕ :=
  let k := distance (buf.drop offset)
  if (buf.drop offset).length ≤ k then
    (.error .eparse, max offset buf.length)
  else if k < 4 ∨ (k = 4 ∧ (buf.getD (offset + k) 0).toNat ≤ 0x0F) then
    (.ok (value ((buf.drop offset).take (k + 1))), offset + (k + 1))
  else
    (.error .eoverflow, offset + (k + 1))

/-- Five bytes fit into 32 bits if the last one carries at most four. -/
theorem value_five {a b c d e : UInt8} (h : Complete [a, b, c, d, e]) :
    value [a, b, c, d, e] < 2 ^ 32 ↔ e.toNat ≤ 0x0F := by
  have hlast : ¬ continues e = true := by
    intro he
    simp [Complete, he] at h
  rw [continues_iff] at hlast
  have ha := payload_lt a
  have hb := payload_lt b
  have hc := payload_lt c
  have hd := payload_lt d
  have he := payload_eq e
  simp only [value]
  omega

/-- Which complete sequences are accepted. -/
theorem accepted_iff {bs : List UInt8} {k : ℕ} (h : Complete bs) (hk : k + 1 = bs.length) :
    bs.length ≤ 5 ∧ value bs < 2 ^ 32 ↔ k < 4 ∨ (k = 4 ∧ (bs.getD k 0).toNat ≤ 0x0F) := by
  rcases Nat.lt_trichotomy k 4 with hlt | rfl | hgt
  · have hvalue : value bs < 2 ^ 32 := calc
      value bs < 128 ^ bs.length := value_lt bs
      _ ≤ 128 ^ 4 := Nat.pow_le_pow_right (by decide) (by omega)
      _ < 2 ^ 32 := by norm_num
    exact iff_of_true ⟨by omega, hvalue⟩ (Or.inl hlt)
  · match bs, hk with
    | [a, b, c, d, e], _ =>
        have hfive := value_five h
        simp only [List.length_cons, List.length_nil, hfive]
        simp
  · exact iff_of_false (fun hfits => by omega) (fun hfits => by omega)

/-- **What the parser does**, for every buffer and every offset. -/
theorem parseVaruint32_eq (buf : List UInt8) (offset : ℕ) :
    parseVaruint32 buf offset = ok (varuint32Outcome buf offset) := by
  rcases Nat.lt_or_ge offset buf.length with hinside | hend
  · have hlength : (buf.take offset).length = offset :=
      List.length_take_of_le (Nat.le_of_lt hinside)
    have hsplit : buf = buf.take offset ++ buf.drop offset :=
      (List.take_append_drop offset buf).symm
    rcases complete_or_cut (buf.drop offset) with ⟨bs, after, hdrop, hbs⟩ | hcut
    · have hk := distance_append hbs after
      have hparse := parseVaruint32_complete (buf.take offset) after hbs
      have hbyte : buf.getD (offset + distance (bs ++ after)) 0 =
          bs.getD (distance (bs ++ after)) 0 := by
        rw [List.getD_eq_getElem?_getD, ← List.getElem?_drop, hdrop,
          List.getElem?_append_left (by omega), ← List.getD_eq_getElem?_getD]
      have hmore : ¬ (bs ++ after).length ≤ distance (bs ++ after) := by
        rw [List.length_append]
        omega
      rw [← hdrop, ← hsplit, hlength] at hparse
      rw [hparse, varuint32Outcome]
      simp only [hdrop, if_neg hmore, hbyte, accepted_iff hbs hk, hk, List.take_left]
      split <;> rfl
    · have hparse := parseVaruint32_cut (buf.take offset) hcut
      have hk := distance_of_cut hcut
      rw [← hsplit, hlength] at hparse
      rw [hparse, varuint32Outcome]
      simp only [hk, le_refl, if_true, List.length_drop, max_eq_right (Nat.le_of_lt hinside),
        Nat.add_sub_cancel' (Nat.le_of_lt hinside)]
  · rw [parseVaruint32_of_ge hend, varuint32Outcome, List.drop_eq_nil_of_le hend]
    simp only [distance_nil, List.length_nil, le_refl, if_true, max_eq_left hend]

/-- The parser does not leave the buffer. -/
theorem varuint32Outcome_le {buf : List UInt8} {offset : ℕ} (h : offset ≤ buf.length) :
    (varuint32Outcome buf offset).2 ≤ buf.length := by
  rw [varuint32Outcome]
  split
  case isTrue => exact (max_eq_right h).le
  case isFalse hmore =>
    rw [List.length_drop] at hmore
    split <;> dsimp only <;> omega

/-- **No read is outside the buffer**, wherever the parser starts. -/
theorem parseVaruint32_ok (buf : List UInt8) (offset : ℕ) :
    ∃ result offset', parseVaruint32 buf offset = ok (result, offset') ∧
      (offset ≤ buf.length → offset' ≤ buf.length) :=
  ⟨(varuint32Outcome buf offset).1, (varuint32Outcome buf offset).2,
    parseVaruint32_eq buf offset, varuint32Outcome_le⟩

/-- **Reading back** an integer of 32 bits that was encoded. -/
theorem reads_varuint32 {n : ℕ} (h : n < 2 ^ 32) : parseVaruint32.check.Reads (encode n) n := by
  intro before after
  have hlength : (encode n).length ≤ 5 :=
    length_encode_le (by decide) (h.trans_le (by norm_num))
  have hparse := parseVaruint32_complete before after (complete_encode n)
  rw [value_encode, if_pos ⟨hlength, h⟩] at hparse
  rw [Parser.check, hparse]
  rfl

end Parse

end Skybrush
