import Skybrush.YawControl

/-!
# Stored Yaw Controls

The binary format of yaw controls, and what a player reads from it. Every buffer that has a
whole header is a stored yaw control and up to three bytes behind the last delta. The header
counts the deltas by a division, which forgets those bytes; the player looks for one more
delta in them and reads past the end of the buffer. A buffer without a whole header is read
past the end when it is opened.

## Main results

* `StoredYawControl.exists_bytes`: every buffer with a whole header is a stored yaw control
  with some bytes behind it.
* `YawPlayer.Closed.run`: what rewinding and moving on keep is kept by every operation.
* `yaw_walk_iff`: the player visits as many setpoints as were counted, and stays inside the
  buffer, exactly when there is a header and no byte is left over.
-/

namespace Skybrush

open Checked

/-! ### Deltas -/

/-- A stored delta of a yaw control. -/
structure YawDelta where
  durationMsec : UInt16
  yawChange : Int16
  deriving DecidableEq

namespace YawDelta

/-- The bytes of a delta. -/
def bytes (d : YawDelta) : List UInt8 :=
  encodeUint16 d.durationMsec.toNat ++ encodeInt16 d.yawChange.toInt

@[simp] theorem length_bytes (d : YawDelta) : d.bytes.length = 4 := rfl

/-- **A delta is read back** from its bytes. -/
theorem reads (d : YawDelta) :
    YawPlayer.parseDelta.Reads d.bytes (d.durationMsec.toNat, d.yawChange.toInt) :=
  (reads_parseUint16 d.durationMsec.toNat_lt).bind
    (reads_parseInt16 d.yawChange.le_toInt (Int.le_of_lt_add_one d.yawChange.toInt_lt)).bind_pure

theorem length_flatMap_bytes (deltas : List YawDelta) :
    (deltas.flatMap bytes).length = 4 * deltas.length := by
  induction deltas with
  | nil => rfl
  | cons d deltas ih =>
      rw [List.flatMap_cons, List.length_append, length_bytes, ih, List.length_cons]
      omega

end YawDelta

/-- Two bytes are the encoding of an unsigned number. -/
theorem exists_encodeUint16 (b₀ b₁ : UInt8) : ∃ v : UInt16, encodeUint16 v.toNat = [b₀, b₁] := by
  have h₀ := b₀.toNat_lt
  have h₁ := b₁.toNat_lt
  refine ⟨UInt16.ofNat (b₁.toNat * 256 + b₀.toNat), ?_⟩
  rw [UInt16.toNat_ofNat', Nat.mod_eq_of_lt (by omega), encodeUint16]
  congr 1
  · exact UInt8.toNat_inj.mp (by rw [UInt8.toNat_ofNat']; omega)
  · congr 1
    exact UInt8.toNat_inj.mp (by rw [UInt8.toNat_ofNat']; omega)

/-- Two bytes are the encoding of a signed number. -/
theorem exists_encodeInt16 (b₀ b₁ : UInt8) : ∃ v : Int16, encodeInt16 v.toInt = [b₀, b₁] := by
  obtain ⟨v, hv⟩ := exists_encodeUint16 b₀ b₁
  refine ⟨Int16.ofInt v.toNat, ?_⟩
  have hlt := v.toNat_lt
  have hsigned : Int.bmod v.toNat Int16.size % 65536 = v.toNat :=
    Int.bmod_emod.trans (Int.emod_eq_of_lt (Int.natCast_nonneg _) (Int.ofNat_lt.mpr hlt))
  rw [encodeInt16, ← hv, Int16.toInt_ofInt, hsigned, Int.toNat_natCast]

/-- Any bytes are deltas and up to three bytes behind them. -/
theorem YawDelta.exists_flatMap_bytes (n : ℕ) {buf : List UInt8} (hle : 4 * n ≤ buf.length)
    (hlt : buf.length < 4 * n + 4) :
    ∃ (deltas : List YawDelta) (rest : List UInt8),
      buf = deltas.flatMap bytes ++ rest ∧ deltas.length = n := by
  induction n generalizing buf with
  | zero => exact ⟨[], buf, rfl, rfl⟩
  | succ n ih =>
      match buf, hle with
      | b₀ :: b₁ :: b₂ :: b₃ :: buf, hle =>
          simp only [List.length_cons] at hle hlt
          obtain ⟨deltas, rest, rfl, hlength⟩ := @ih buf (by omega) (by omega)
          obtain ⟨durationMsec, hduration⟩ := exists_encodeUint16 b₀ b₁
          obtain ⟨yawChange, hchange⟩ := exists_encodeInt16 b₂ b₃
          refine ⟨⟨durationMsec, yawChange⟩ :: deltas, rest, ?_, by rw [List.length_cons, hlength]⟩
          rw [List.flatMap_cons, bytes, hduration, hchange]
          rfl

/-! ### Yaw controls -/

/-- A stored yaw control. -/
structure StoredYawControl where
  flags : UInt8
  yawOffset : Int16
  deltas : List YawDelta
  deriving DecidableEq

namespace StoredYawControl

/-- The bytes of the header. -/
def header (c : StoredYawControl) : List UInt8 := c.flags :: encodeInt16 c.yawOffset.toInt

/-- The bytes of a yaw control. -/
def bytes (c : StoredYawControl) : List UInt8 := c.header ++ c.deltas.flatMap YawDelta.bytes

@[simp] theorem length_header (c : StoredYawControl) : c.header.length = 3 := rfl

theorem length_bytes (c : StoredYawControl) : c.bytes.length = 3 + 4 * c.deltas.length := by
  rw [bytes, List.length_append, length_header, YawDelta.length_flatMap_bytes]

/-- **Every buffer with a whole header** is a stored yaw control with some bytes behind it. -/
theorem exists_bytes {buf : List UInt8} (h : 3 ≤ buf.length) :
    ∃ (c : StoredYawControl) (rest : List UInt8), buf = c.bytes ++ rest ∧ rest.length < 4 := by
  match buf, h with
  | b₀ :: b₁ :: b₂ :: buf, _ =>
      obtain ⟨yawOffset, hoffset⟩ := exists_encodeInt16 b₁ b₂
      obtain ⟨deltas, rest, rfl, hlength⟩ :=
        @YawDelta.exists_flatMap_bytes (buf.length / 4) buf (by omega) (by omega)
      refine ⟨⟨b₀, yawOffset, deltas⟩, rest, ?_, ?_⟩
      · rw [bytes, header, hoffset]
        simp only [List.cons_append, List.nil_append]
      · rw [List.length_append, YawDelta.length_flatMap_bytes] at hlength
        omega

/-- The yaw control in memory, in a buffer with some bytes behind it. -/
def yawControl (c : StoredYawControl) (rest : List UInt8) : YawControl where
  buffer := c.bytes ++ rest
  headerLength := 3
  numDeltas := YawControl.countDeltas (c.bytes ++ rest).length 3
  autoYaw := c.flags &&& 0x01 != 0
  yawOffsetDdeg := c.yawOffset.toInt

/-- **A stored yaw control is opened**, whatever is behind it. -/
theorem initFromBuffer (c : StoredYawControl) (rest : List UInt8) :
    YawControl.initFromBuffer (c.bytes ++ rest) = ok (c.yawControl rest) := by
  have hread : YawControl.parseHeader.Reads c.header
      (c.flags &&& 0x01 != 0, c.yawOffset.toInt) :=
    (Parser.reads_cell c.flags).bind
      (reads_parseInt16 c.yawOffset.le_toInt (Int.le_of_lt_add_one c.yawOffset.toInt_lt)).bind_pure
  have hheader : YawControl.parseHeader (c.bytes ++ rest) 0 =
      ok ((c.flags &&& 0x01 != 0, c.yawOffset.toInt), 3) := by
    rw [bytes, List.append_assoc]
    exact hread [] (c.deltas.flatMap YawDelta.bytes ++ rest)
  rw [YawControl.initFromBuffer, hheader]
  rfl

/-- Without a whole header, opening a yaw control reads past the end. -/
theorem initFromBuffer_of_lt {buf : List UInt8} (h : buf.length < 3) :
    YawControl.initFromBuffer buf = fault := by
  rw [YawControl.initFromBuffer, (YawControl.needs_parseHeader buf 0 (Nat.zero_le _)).2 (by omega)]
  rfl

end StoredYawControl

/-! ### Building the setpoints -/

namespace YawDelta

open YawPlayer

variable (F : Rounding)

/-- The setpoint that a player stands at, when the given deltas begin at an offset, a time and
a yaw; behind the last delta, the yaw is held. -/
def current (offset time : ℕ) (yaw : ℤ) : List YawDelta → CurrentSetpoint
  | [] => ⟨offset, 0, restSetpoint F time yaw⟩
  | d :: _ => ⟨offset, 4, deltaSetpoint F time yaw d.durationMsec.toNat d.yawChange.toInt⟩

variable {F} {ctrl : YawControl} {before rest : List UInt8} {d : YawDelta}
  {deltas : List YawDelta} (time : ℕ) (yaw : ℤ)

/-- **Building the first** of the deltas that are in the buffer behind other bytes. -/
theorem build_cons (hbuffer : ctrl.buffer = before ++ ((d :: deltas).flatMap bytes ++ rest)) :
    buildCurrentSetpoint F ctrl before.length time yaw =
      ok ⟨ctrl, current F before.length time yaw (d :: deltas)⟩ := by
  have hread := d.reads before (deltas.flatMap bytes ++ rest)
  rw [List.flatMap_cons, List.append_assoc] at hbuffer
  rw [← hbuffer] at hread
  have hmore : ¬ ctrl.buffer.length ≤ before.length := by
    rw [hbuffer, List.length_append, List.length_append, length_bytes]
    omega
  have hlength : before.length + d.bytes.length - before.length = 4 :=
    Nat.add_sub_cancel_left _ _
  rw [buildCurrentSetpoint, if_neg hmore, hread, ok_bind]
  simp only [hlength]
  rfl

/-- Behind the last delta there are no more setpoints. -/
theorem build_nil (hbuffer : ctrl.buffer = before) :
    buildCurrentSetpoint F ctrl before.length time yaw =
      ok ⟨ctrl, current F before.length time yaw []⟩ := by
  rw [buildCurrentSetpoint, if_pos (by rw [hbuffer])]
  rfl

/-- **Left over bytes** are taken for a delta and read past the end. -/
theorem build_cut (hbuffer : ctrl.buffer = before ++ rest) (hne : rest ≠ [])
    (hlt : rest.length < 4) : buildCurrentSetpoint F ctrl before.length time yaw = fault := by
  have hpos := List.length_pos_of_ne_nil hne
  have hlength : ctrl.buffer.length = before.length + rest.length := by
    rw [hbuffer, List.length_append]
  rw [buildCurrentSetpoint, if_neg (by omega),
    (needs_parseDelta ctrl.buffer before.length (by omega)).2
      (by rw [YawControl.sizeOfDelta]; omega)]
  rfl

/-- The deltas behind some bytes, up to the end of the buffer. -/
theorem build (hbuffer : ctrl.buffer = before ++ deltas.flatMap bytes) :
    buildCurrentSetpoint F ctrl before.length time yaw =
      ok ⟨ctrl, current F before.length time yaw deltas⟩ := by
  cases deltas with
  | nil => exact build_nil time yaw (by rw [hbuffer, List.flatMap_nil, List.append_nil])
  | cons d deltas =>
      have hbuffer' : ctrl.buffer = before ++ ((d :: deltas).flatMap bytes ++ []) := by
        rw [hbuffer, List.append_nil]
      exact build_cons time yaw hbuffer'

/-- **Moving on** goes behind the current delta, with the sums in 32 bits. -/
theorem buildNext_cons :
    buildNextSetpoint F ⟨ctrl, current F before.length time yaw (d :: deltas)⟩ =
      buildCurrentSetpoint F ctrl (before ++ d.bytes).length
        ((time + d.durationMsec.toNat) % 2 ^ 32)
        (Int.bmod (yaw + d.yawChange.toInt) (2 ^ 32)) := by
  rw [List.length_append]
  rfl

/-! ### Walking -/

theorem hasMoreSetpoints_cons : (⟨ctrl, current F before.length time yaw (d :: deltas)⟩ :
    YawPlayer).hasMoreSetpoints = true := rfl

/-- A walk over deltas up to the end of the buffer finds all of them. -/
theorem walk_deltas (hbuffer : ctrl.buffer = before ++ deltas.flatMap bytes) :
    ∃ found player, (∀ fuel > deltas.length,
        walk F fuel ⟨ctrl, current F before.length time yaw deltas⟩ = ok (found, player)) ∧
      found.length = deltas.length := by
  induction deltas generalizing before time yaw with
  | nil =>
      refine ⟨[], ⟨ctrl, current F before.length time yaw []⟩, fun fuel hfuel => ?_, rfl⟩
      obtain ⟨fuel, rfl⟩ := Nat.exists_eq_succ_of_ne_zero (Nat.ne_of_gt hfuel)
      rfl
  | cons d deltas ih =>
      have hnext : ctrl.buffer = (before ++ d.bytes) ++ deltas.flatMap bytes := by
        rw [hbuffer, List.flatMap_cons, List.append_assoc]
      obtain ⟨found, player, hwalk, hlength⟩ := ih
        ((time + d.durationMsec.toNat) % 2 ^ 32) (Int.bmod (yaw + d.yawChange.toInt) (2 ^ 32)) hnext
      refine ⟨deltaSetpoint F time yaw d.durationMsec.toNat d.yawChange.toInt :: found, player,
        fun fuel hfuel => ?_, by rw [List.length_cons, List.length_cons, hlength]⟩
      obtain ⟨fuel, rfl⟩ := Nat.exists_eq_succ_of_ne_zero (Nat.ne_of_gt (Nat.zero_lt_of_lt hfuel))
      rw [walk, if_pos (hasMoreSetpoints_cons time yaw), buildNext_cons, build _ _ hnext, ok_bind,
        hwalk fuel (Nat.lt_of_succ_lt_succ hfuel)]
      rfl

/-- A walk over deltas with some bytes left over does not come to an end. -/
theorem walk_cut (hbuffer : ctrl.buffer = before ++ ((d :: deltas).flatMap bytes ++ rest))
    (hne : rest ≠ []) (hlt : rest.length < 4) (fuel : ℕ) (r : List YawSetpoint × YawPlayer) :
    walk F fuel ⟨ctrl, current F before.length time yaw (d :: deltas)⟩ ≠ ok r := by
  induction deltas generalizing before time yaw d fuel r with
  | nil =>
      have hnext : ctrl.buffer = (before ++ d.bytes) ++ rest := by
        rw [hbuffer, List.flatMap_singleton, List.append_assoc]
      cases fuel with
      | zero => rw [walk]; simp
      | succ fuel =>
          rw [walk, if_pos (hasMoreSetpoints_cons time yaw), buildNext_cons,
            build_cut _ _ hnext hne hlt]
          simp
  | cons d' deltas ih =>
      have hnext : ctrl.buffer = (before ++ d.bytes) ++ ((d' :: deltas).flatMap bytes ++ rest) := by
        rw [hbuffer, List.flatMap_cons, List.append_assoc, List.append_assoc]
      cases fuel with
      | zero => rw [walk]; simp
      | succ fuel =>
          rw [walk, if_pos (hasMoreSetpoints_cons time yaw), buildNext_cons, build_cons _ _ hnext,
            ok_bind]
          intro hok
          obtain ⟨r', hwalk, -⟩ := bind_eq_ok.mp hok
          exact ih _ _ hnext fuel r' hwalk

end YawDelta

/-! ### What every operation keeps -/

namespace YawPlayer

variable {F : Rounding} {ctrl : YawControl}

/-- Rewinding and moving on lead to setpoints with a property, from setpoints that have it. -/
structure Closed (F : Rounding) (ctrl : YawControl) (I : CurrentSetpoint → Prop) : Prop where
  rewind : ∃ setpoint, rewind F ctrl = ok ⟨ctrl, setpoint⟩ ∧ I setpoint
  buildNext : ∀ setpoint, I setpoint → ∃ setpoint',
    buildNextSetpoint F ⟨ctrl, setpoint⟩ = ok ⟨ctrl, setpoint'⟩ ∧ I setpoint'

variable {I : CurrentSetpoint → Prop} {setpoint : CurrentSetpoint}

/-- **Seeking** only rewinds and moves on. -/
theorem Closed.seekLoop (h : Closed F ctrl I) (t : TimeSec) {fuel : ℕ} (hI : I setpoint) :
    seekLoop F t fuel ⟨ctrl, setpoint⟩ = outOfFuel ∨
      ∃ rel setpoint', seekLoop F t fuel ⟨ctrl, setpoint⟩ = ok (rel, ⟨ctrl, setpoint'⟩) ∧
        I setpoint' := by
  induction fuel generalizing setpoint with
  | zero => exact Or.inl rfl
  | succ fuel ih =>
      rw [YawPlayer.seekLoop]
      split
      · obtain ⟨setpoint', hrewind, hI'⟩ := h.rewind
        rw [hrewind]
        exact ih hI'
      · split
        · obtain ⟨setpoint', hnext, hI'⟩ := h.buildNext setpoint hI
          rw [hnext]
          exact ih hI'
        · exact Or.inr ⟨_, setpoint, rfl, hI⟩

/-- **Adding up the durations** only moves on. -/
theorem Closed.totalDurationLoop (h : Closed F ctrl I) {fuel result : ℕ} (hI : I setpoint) :
    totalDurationLoop F fuel result ⟨ctrl, setpoint⟩ = outOfFuel ∨
      ∃ total setpoint', totalDurationLoop F fuel result ⟨ctrl, setpoint⟩ =
        ok (total, ⟨ctrl, setpoint'⟩) ∧ I setpoint' := by
  induction fuel generalizing result setpoint with
  | zero => exact Or.inl rfl
  | succ fuel ih =>
      rw [YawPlayer.totalDurationLoop]
      split
      · obtain ⟨setpoint', hnext, hI'⟩ := h.buildNext setpoint hI
        rw [hnext]
        exact ih hI'
      · exact Or.inr ⟨_, setpoint, rfl, hI⟩

/-- **One operation** runs out of fuel or keeps the property. -/
theorem Closed.apply (h : Closed F ctrl I) (fuel : ℕ) (hI : I setpoint) (op : Op) :
    apply F fuel ⟨ctrl, setpoint⟩ op = outOfFuel ∨
      ∃ setpoint', apply F fuel ⟨ctrl, setpoint⟩ op = ok ⟨ctrl, setpoint'⟩ ∧ I setpoint' := by
  cases op with
  | init => exact Or.inr h.rewind
  | buildNextSetpoint => exact Or.inr (h.buildNext setpoint hI)
  | getYawAt t =>
      rw [YawPlayer.apply, YawPlayer.getYawAt, seekToTime]
      rcases h.seekLoop t.clip hI with hfuel | ⟨rel, setpoint', hseek, hI'⟩
      · exact Or.inl (by rw [hfuel]; rfl)
      · exact Or.inr ⟨setpoint', by rw [hseek]; rfl, hI'⟩
  | getYawRateAt t =>
      rw [YawPlayer.apply, YawPlayer.getYawRateAt, seekToTime]
      rcases h.seekLoop t.clip hI with hfuel | ⟨rel, setpoint', hseek, hI'⟩
      · exact Or.inl (by rw [hfuel]; rfl)
      · exact Or.inr ⟨setpoint', by rw [hseek]; rfl, hI'⟩
  | getTotalDurationMsec =>
      obtain ⟨setpoint₀, hrewind, hI₀⟩ := h.rewind
      rw [YawPlayer.apply, YawPlayer.getTotalDurationMsec, hrewind, ok_bind]
      rcases h.totalDurationLoop hI₀ with hfuel | ⟨total, setpoint', htotal, hI'⟩
      · exact Or.inl (by rw [hfuel]; rfl)
      · exact Or.inr ⟨setpoint', by rw [htotal]; rfl, hI'⟩
  | hasMoreSetpoints => exact Or.inr ⟨setpoint, rfl, hI⟩

/-- **A run** runs out of fuel or keeps the property. -/
theorem Closed.run (h : Closed F ctrl I) (fuel : ℕ) (hI : I setpoint) (ops : List Op) :
    run F fuel ⟨ctrl, setpoint⟩ ops = outOfFuel ∨
      ∃ setpoint', run F fuel ⟨ctrl, setpoint⟩ ops = ok ⟨ctrl, setpoint'⟩ ∧ I setpoint' := by
  induction ops generalizing setpoint with
  | nil => exact Or.inr ⟨setpoint, rfl, hI⟩
  | cons op ops ih =>
      rw [YawPlayer.run]
      rcases h.apply fuel hI op with hfuel | ⟨setpoint', hop, hI'⟩
      · rw [hfuel]
        exact Or.inl rfl
      · rw [hop]
        exact ih hI'

end YawPlayer

/-! ### Walks that stay inside the buffer -/

namespace StoredYawControl

open YawDelta YawPlayer

variable {F : Rounding} {c : StoredYawControl}

/-- A player that stands at a delta or behind the last one, at any time and yaw. -/
inductive AtDelta (F : Rounding) (c : StoredYawControl) : CurrentSetpoint → Prop
  | intro {before : List UInt8} {deltas : List YawDelta}
      (hbytes : c.bytes = before ++ deltas.flatMap YawDelta.bytes) (time : ℕ) (yaw : ℤ) :
      AtDelta F c (current F before.length time yaw deltas)

/-- Rewinding goes to the first delta. -/
theorem rewind_eq (F : Rounding) (c : StoredYawControl) :
    rewind F (c.yawControl []) =
      ok ⟨c.yawControl [], current F c.header.length 0 c.yawOffset.toInt c.deltas⟩ :=
  @build F (c.yawControl []) c.header c.deltas 0 c.yawOffset.toInt (List.append_nil c.bytes)

/-- **A stored yaw control** with nothing left over keeps its players at its deltas. -/
theorem closed_atDelta (F : Rounding) (c : StoredYawControl) :
    Closed F (c.yawControl []) (AtDelta F c) := by
  refine ⟨⟨_, c.rewind_eq F, .intro rfl 0 _⟩, ?_⟩
  rintro _ ⟨hbytes, time, yaw⟩
  rename_i before deltas
  have hbuffer : (c.yawControl []).buffer = before ++ deltas.flatMap YawDelta.bytes :=
    (List.append_nil c.bytes).trans hbytes
  cases deltas with
  | nil => exact ⟨_, build _ _ hbuffer, .intro hbytes _ _⟩
  | cons d deltas =>
      rw [List.flatMap_cons, ← List.append_assoc] at hbuffer hbytes
      exact ⟨_, buildNext_cons time yaw |>.trans (build _ _ hbuffer), .intro hbytes _ _⟩

/-- **With bytes left over**, a walk does not come to an end. -/
theorem rewind_walk_cut (c : StoredYawControl) {rest : List UInt8} (hne : rest ≠ [])
    (hlt : rest.length < 4) (fuel : ℕ) (r : List YawSetpoint × YawPlayer) :
    (rewind F (c.yawControl rest) >>= walk F fuel) ≠ ok r := by
  obtain ⟨flags, yawOffset, deltas⟩ := c
  cases deltas with
  | nil =>
      have hcut := @build_cut F (yawControl ⟨flags, yawOffset, []⟩ rest)
        (header ⟨flags, yawOffset, []⟩) rest 0 yawOffset.toInt rfl hne hlt
      intro hok
      obtain ⟨player, hrewind, -⟩ := bind_eq_ok.mp hok
      exact absurd (hcut.symm.trans hrewind) (by simp)
  | cons d deltas =>
      have hbuffer : (yawControl ⟨flags, yawOffset, d :: deltas⟩ rest).buffer =
          header ⟨flags, yawOffset, d :: deltas⟩ ++
            ((d :: deltas).flatMap YawDelta.bytes ++ rest) := List.append_assoc _ _ _
      have hfirst := build_cons (F := F) 0 yawOffset.toInt hbuffer
      rw [rewind]
      intro hok
      obtain ⟨player, hrewind, hwalk⟩ := bind_eq_ok.mp hok
      cases hfirst.symm.trans hrewind
      exact walk_cut 0 yawOffset.toInt hbuffer hne hlt fuel r hwalk

end StoredYawControl

open YawPlayer in
/-- The player of a yaw control stays inside the buffer, whatever it is asked to do, and a walk
visits as many setpoints as were counted without a wraparound, none exactly if the yaw control
is empty. -/
structure YawWalks (F : Rounding) (buf : List UInt8) : Prop where
  safe : ∀ fuel ops, (yawSession F buf fuel ops).Safe
  visits : ∃ ctrl found player, YawControl.initFromBuffer buf = ok ctrl ∧
    (∃ fuel₀, ∀ fuel ≥ fuel₀, (rewind F ctrl >>= walk F fuel) = ok (found, player)) ∧
    found.length = ctrl.numDeltas ∧ (ctrl.isEmpty = true ↔ found = []) ∧
    ctrl.headerLength + YawControl.sizeOfDelta * ctrl.numDeltas ≤ buf.length

open YawPlayer YawDelta in
/-- **The player visits what was counted**, and stays inside the buffer, exactly when the
buffer has a whole header and no bytes are left over behind the last delta. -/
theorem yaw_walk_iff (F : Rounding) {buf : List UInt8} (hsize : buf.length < 2 ^ 64) :
    YawWalks F buf ↔ 3 ≤ buf.length ∧ (buf.length - 3) % 4 = 0 := by
  rcases Nat.lt_or_ge buf.length 3 with hlt | hge
  · -- without a whole header, opening it is enough to read past the end
    refine ⟨fun h => ?_, fun h => absurd h.1 (by omega)⟩
    obtain ⟨ctrl, _, _, hinit, _⟩ := h.visits
    rw [StoredYawControl.initFromBuffer_of_lt hlt] at hinit
    cases hinit
  obtain ⟨c, rest, rfl, hrest⟩ := StoredYawControl.exists_bytes hge
  have hlength : (c.bytes ++ rest).length = 3 + 4 * c.deltas.length + rest.length := by
    rw [List.length_append, c.length_bytes]
  have hcount : YawControl.countDeltas (c.bytes ++ rest).length 3 = c.deltas.length := by
    rw [YawControl.countDeltas, YawControl.sizeOfDelta]
    omega
  cases rest with
  | cons b rest =>
      -- the walk takes the bytes that are left over for one more delta
      refine ⟨fun h => ?_, fun h => by rw [hlength, List.length_cons] at h; simp at hrest; omega⟩
      obtain ⟨ctrl, found, player, hinit, ⟨fuel₀, hwalk⟩, -⟩ := h.visits
      rw [c.initFromBuffer] at hinit
      cases hinit
      exact absurd (hwalk fuel₀ le_rfl) (c.rewind_walk_cut (List.cons_ne_nil b rest) hrest fuel₀ _)
  | nil =>
      refine ⟨fun _ => ⟨hge, by rw [hlength, List.length_nil]; omega⟩, fun _ => ⟨?_, ?_⟩⟩
      · intro fuel ops
        obtain ⟨setpoint, hrewind, hstart⟩ := (c.closed_atDelta F).rewind
        rw [yawSession, c.initFromBuffer, ok_bind, hrewind, ok_bind]
        rcases (c.closed_atDelta F).run fuel hstart ops with hfuel | ⟨setpoint', hrun, -⟩
        · rw [hfuel]
          exact safe_outOfFuel
        · rw [hrun]
          exact safe_ok _
      · have hbuffer : (c.yawControl []).buffer =
            c.header ++ c.deltas.flatMap YawDelta.bytes := List.append_nil c.bytes
        obtain ⟨found, player, hwalk, hfound⟩ := walk_deltas (F := F) 0 c.yawOffset.toInt hbuffer
        refine ⟨c.yawControl [], found, player, c.initFromBuffer [],
          ⟨c.deltas.length + 1, fun fuel hfuel => ?_⟩, hfound.trans hcount.symm, ?_, ?_⟩
        · rw [c.rewind_eq F, ok_bind]
          exact hwalk fuel hfuel
        · rw [YawControl.isEmpty, beq_iff_eq, ← List.length_eq_zero_iff, hfound]
          exact Eq.congr_left hcount
        · have hnum : (c.yawControl []).numDeltas = c.deltas.length := hcount
          rw [hnum, hlength]
          exact Nat.le_refl _

/-- Two deltas, of one degree in a second and of -0.5 degrees in two seconds, and nothing left
over. -/
theorem yaw_walk_iff_twoDeltas :
    YawWalks .exact [0, 0, 0, 232, 3, 10, 0, 208, 7, 251, 255] :=
  (yaw_walk_iff .exact (by decide)).mpr (by decide)

/-- A player of a yaw control with one byte behind its header reads past the end. -/
theorem left_over_byte_reads_outside :
    ¬ ∀ (F : Rounding) (buf : List UInt8), buf.length < 2 ^ 64 → YawWalks F buf :=
  fun h => (h .exact [0, 0, 0, 0] (by decide)).safe 0 [] rfl

end Skybrush
