import Mathlib.Tactic.Common
import Mathlib.Tactic.Ring

/-!
# Base-128 Variable-Length Integers

A variable-length integer is a sequence of bytes that carry seven bits each, least
significant group first; the most significant bit of a byte is set when another byte
follows. This module fixes the two halves of a byte (`Base128.continues`,
`Base128.payload`), the complete sequences (`Base128.Complete`: every byte but the last
continues), their value, and the shortest encoding of a number.

## Main results

* `Base128.continues_iff`, `Base128.payload_eq`: the two halves of a byte as arithmetic.
* `Base128.complete_encode`, `Base128.value_encode`: the encoding is complete and has the
  value it encodes.
* `Base128.length_encode_le`: numbers below `128 ^ k` take at most `k` bytes.
* `Base128.distance_append`, `Base128.distance_of_cut`: how far the last byte of a sequence is.
-/

namespace Base128

/-- Another byte follows this one. -/
def continues (b : UInt8) : Bool := b &&& 0x80 != 0

/-- The seven bits that a byte carries. -/
def payload (b : UInt8) : ℕ := (b &&& 0x7F).toNat

/-- The payload is the remainder modulo 128. -/
theorem payload_eq (b : UInt8) : payload b = b.toNat % 128 := by
  rw [payload, UInt8.toNat_and]
  exact Nat.and_two_pow_sub_one_eq_mod b.toNat 7

theorem payload_lt (b : UInt8) : payload b < 128 := by
  rw [payload_eq]
  exact Nat.mod_lt _ (by decide)

/-- The continuation bit is set exactly from 128 on. -/
theorem continues_iff (b : UInt8) : continues b = true ↔ 128 ≤ b.toNat := by
  have h : ∀ i : Fin 256, (i.val &&& 128 ≠ 0 ↔ 128 ≤ i.val) := by
    decide +kernel
  have hb : b.toNat < 256 := b.toNat_lt
  rw [continues, bne_iff_ne, ne_eq, ← UInt8.toNat_inj, UInt8.toNat_and]
  exact h ⟨b.toNat, hb⟩

/-- A complete sequence: every byte but the last continues. -/
def Complete : List UInt8 → Prop
  | [] => False
  | b :: bs => if continues b then Complete bs else bs = []

instance decidableComplete : (bs : List UInt8) → Decidable (Complete bs)
  | [] => isFalse id
  | b :: bs =>
      let _ := decidableComplete bs
      inferInstanceAs (Decidable (if continues b then Complete bs else bs = []))

/-- The value of a sequence, least significant group first. -/
def value : List UInt8 → ℕ
  | [] => 0
  | b :: bs => payload b + 128 * value bs

/-- A complete sequence has at least one byte. -/
theorem Complete.length_pos {bs : List UInt8} (h : Complete bs) : 0 < bs.length := by
  cases bs with
  | nil => exact absurd h (by simp [Complete])
  | cons b bs => simp

/-- Bytes begin with a complete sequence, or every one of them continues. -/
theorem complete_or_cut (bytes : List UInt8) :
    (∃ bs after, bytes = bs ++ after ∧ Complete bs) ∨ ∀ b ∈ bytes, continues b = true := by
  induction bytes with
  | nil => exact Or.inr (List.forall_mem_nil _)
  | cons b bytes ih =>
      cases hc : continues b with
      | false => exact Or.inl ⟨[b], bytes, rfl, by simp [Complete, hc]⟩
      | true =>
          rcases ih with ⟨bs, after, rfl, hbs⟩ | hcut
          · exact Or.inl ⟨b :: bs, after, rfl, by simpa [Complete, hc] using hbs⟩
          · exact Or.inr (List.forall_mem_cons.mpr ⟨hc, hcut⟩)

/-- Each byte adds seven bits. -/
theorem value_lt (bs : List UInt8) : value bs < 128 ^ bs.length := by
  induction bs with
  | nil => exact Nat.one_pos
  | cons b bs ih =>
      have hpayload := payload_lt b
      rw [value, List.length_cons, Nat.pow_succ']
      omega

/-! ### Where a sequence ends -/

/-- How far the first byte is that does not continue, or the number of bytes if all of them
do. -/
def distance (bytes : List UInt8) : ℕ := bytes.findIdx fun b => !continues b

@[simp] theorem distance_nil : distance [] = 0 := rfl

theorem distance_cons_of_continues {b : UInt8} (h : continues b = true) (bytes : List UInt8) :
    distance (b :: bytes) = distance bytes + 1 := by
  simp [distance, List.findIdx_cons, h]

theorem distance_cons_of_last {b : UInt8} (h : continues b = false) (bytes : List UInt8) :
    distance (b :: bytes) = 0 := by
  simp [distance, List.findIdx_cons, h]

theorem distance_le_length (bytes : List UInt8) : distance bytes ≤ bytes.length :=
  List.findIdx_le_length

/-- With fewer bytes there is less to go. -/
theorem distance_take (bytes : List UInt8) (n : ℕ) :
    distance (bytes.take n) = min n (distance bytes) := List.findIdx_take

/-- A complete sequence ends with the first byte that does not continue. -/
theorem distance_append {bs : List UInt8} (h : Complete bs) (after : List UInt8) :
    distance (bs ++ after) + 1 = bs.length := by
  induction bs with
  | nil => exact absurd h (by simp [Complete])
  | cons b bs ih =>
      rw [Complete] at h
      split at h
      case isTrue hc =>
        rw [List.cons_append, distance_cons_of_continues hc, ih h, List.length_cons]
      case isFalse hlast =>
        rw [List.cons_append, distance_cons_of_last (by simpa using hlast), h]
        rfl

/-- A sequence that is cut does not end. -/
theorem distance_of_cut {bytes : List UInt8} (h : ∀ b ∈ bytes, continues b = true) :
    distance bytes = bytes.length := by
  rw [distance, List.findIdx_eq_length]
  intro b hb
  rw [h b hb]
  rfl

/-! ### The shortest encoding -/

/-- The shortest sequence of a given value. -/
def encode (n : ℕ) : List UInt8 :=
  if n < 128 then [UInt8.ofNat n] else UInt8.ofNat (n % 128 + 128) :: encode (n / 128)

theorem encode_of_lt {n : ℕ} (h : n < 128) : encode n = [UInt8.ofNat n] := by
  rw [encode, if_pos h]

theorem encode_of_ge {n : ℕ} (h : 128 ≤ n) :
    encode n = UInt8.ofNat (n % 128 + 128) :: encode (n / 128) := by
  rw [encode, if_neg (by omega)]

/-- The last byte of an encoding does not continue. -/
theorem continues_ofNat_of_lt {n : ℕ} (h : n < 128) : continues (UInt8.ofNat n) = false := by
  rw [← Bool.not_eq_true, continues_iff, UInt8.toNat_ofNat']
  omega

/-- The other bytes of an encoding do. -/
theorem continues_ofNat_add (n : ℕ) : continues (UInt8.ofNat (n % 128 + 128)) = true := by
  rw [continues_iff, UInt8.toNat_ofNat']
  omega

/-- The encoding is a complete sequence. -/
theorem complete_encode (n : ℕ) : Complete (encode n) := by
  induction n using Nat.strongRecOn with
  | ind n ih =>
      rcases Nat.lt_or_ge n 128 with h | h
      · simp [encode_of_lt h, Complete, continues_ofNat_of_lt h]
      · rw [encode_of_ge h, Complete, if_pos (continues_ofNat_add n)]
        exact ih _ (by omega)

/-- The encoding has the value that it encodes. -/
theorem value_encode (n : ℕ) : value (encode n) = n := by
  induction n using Nat.strongRecOn with
  | ind n ih =>
      rcases Nat.lt_or_ge n 128 with h | h
      · simp only [encode_of_lt h, value, payload_eq, UInt8.toNat_ofNat']
        omega
      · simp only [encode_of_ge h, value, payload_eq, UInt8.toNat_ofNat',
          ih (n / 128) (by omega)]
        omega

/-- Numbers below `128 ^ k` take at most `k` bytes. -/
theorem length_encode_le {n k : ℕ} (hk : 0 < k) (h : n < 128 ^ k) : (encode n).length ≤ k := by
  induction k generalizing n with
  | zero => omega
  | succ k ih =>
      rcases Nat.lt_or_ge n 128 with hn | hn
      · simp [encode_of_lt hn]
      · rw [encode_of_ge hn, List.length_cons]
        have hk' : 0 < k := by
          rcases Nat.eq_zero_or_pos k with rfl | hk'
          · simp at h
            omega
          · exact hk'
        have hdiv : n / 128 < 128 ^ k := by
          rw [Nat.div_lt_iff_lt_mul (by decide)]
          calc n < 128 ^ (k + 1) := h
            _ = 128 ^ k * 128 := by ring
        have := ih hk' hdiv
        omega

end Base128
