import Skybrush.BinaryHeader

/-!
# The Integrity Check of Binary Files

The initialisation of a parser reads the whole file in pieces of 256 bytes to compute its
checksum. This is the checksum of the file in one piece, where the four bytes of the stored
checksum are replaced with zeros. The pieces count their offset in 32 bits, so that the file
must be shorter than that.

## Main results

* `BinaryFileParser.checksumFrom_zero`: the checksum in pieces is the checksum in one piece.
* `checksum_checked`: the initialisation fails with `SB_ECORRUPTED` exactly if the stored
  checksum is not this one.
* `burst_detected`: four bytes side by side of an accepted file cannot be changed without
  this.
-/

namespace Skybrush

namespace BinaryFileParser

/-! ### The checksum in one piece -/

/-- A piece that is empty does not need to be left out. -/
theorem crc32Piece_eq (checksum : BitVec 32) (offset : ℕ) (buf : List UInt8) :
    crc32Piece checksum offset buf = apCrc32Update checksum
      (if offset = 0 ∧ 10 ≤ buf.length then clearChecksum buf else buf) := by
  rw [crc32Piece]
  generalize (if offset = 0 ∧ 10 ≤ buf.length then clearChecksum buf else buf) = piece
  cases piece with
  | nil => rfl
  | cons byte piece => exact if_pos (Nat.succ_pos _)

theorem crc32Piece_zero {buf : List UInt8} (h : 10 ≤ buf.length) (checksum : BitVec 32) :
    crc32Piece checksum 0 buf = apCrc32Update checksum (clearChecksum buf) := by
  rw [crc32Piece_eq, if_pos ⟨rfl, h⟩]

theorem crc32Piece_of_ne_zero {offset : ℕ} (h : offset ≠ 0) (checksum : BitVec 32)
    (buf : List UInt8) : crc32Piece checksum offset buf = apCrc32Update checksum buf := by
  rw [crc32Piece_eq, if_neg fun hzero => h hzero.1]

/-- Behind the first piece, the pieces add up: by induction on the pieces. -/
theorem checksumFrom_of_ne_zero (data : List UInt8) (checksum : BitVec 32) (offset : ℕ)
    (hpos : offset ≠ 0) (h : offset + data.length < 2 ^ 32) :
    checksumFrom data checksum offset = apCrc32Update checksum data := by
  induction data, checksum, offset using checksumFrom.induct with
  | case1 data checksum offset hlast =>
      have hall : data.take 256 = data := by
        rw [List.length_take] at hlast
        exact List.take_of_length_le (by omega)
      rw [checksumFrom, if_pos hlast, hall, crc32Piece_of_ne_zero hpos]
  | case2 data checksum offset hfull ih =>
      rw [List.length_take] at hfull
      have hlength : (data.drop 256).length = data.length - 256 := List.length_drop
      have hoffset : (offset + 256) % 2 ^ 32 = offset + 256 := Nat.mod_eq_of_lt (by omega)
      rw [hoffset] at ih
      rw [checksumFrom, List.length_take, if_neg hfull, hoffset, ih (by omega) (by omega),
        crc32Piece_of_ne_zero hpos, ← apCrc32Update_append, List.take_append_drop]

/-- Clearing the stored checksum concerns the first ten bytes. -/
theorem clearChecksum_append {buf : List UInt8} (h : 10 ≤ buf.length) (rest : List UInt8) :
    clearChecksum (buf ++ rest) = clearChecksum buf ++ rest := by
  rw [clearChecksum, clearChecksum, List.set_append_left _ _ (by omega),
    List.set_append_left _ _ (by rw [List.length_set]; omega),
    List.set_append_left _ _ (by rw [List.length_set, List.length_set]; omega),
    List.set_append_left _ _ (by rw [List.length_set, List.length_set, List.length_set]; omega)]

/-- **The checksum in pieces is the checksum in one piece.** -/
theorem checksumFrom_zero {data : List UInt8} (h : 10 ≤ data.length)
    (hlength : data.length < 2 ^ 32) :
    checksumFrom data 0 0 = apCrc32Update 0 (clearChecksum data) := by
  have hpiece : 10 ≤ (data.take 256).length := by
    rw [List.length_take]
    omega
  have hsplit : clearChecksum data = clearChecksum (data.take 256) ++ data.drop 256 := by
    rw [← clearChecksum_append hpiece, List.take_append_drop]
  rw [checksumFrom, crc32Piece_zero hpiece, hsplit]
  split
  case isTrue hlast =>
    rw [List.length_take] at hlast
    rw [List.drop_of_length_le (by omega), List.append_nil]
  case isFalse hfull =>
    have hrest : 256 + (data.drop 256).length < 2 ^ 32 := by
      rw [List.length_take] at hfull
      rw [List.length_drop]
      omega
    rw [apCrc32Update_append]
    exact checksumFrom_of_ne_zero _ _ 256 (by decide) hrest

end BinaryFileParser

open BinaryFileParser

/-- **Which checksum is checked**: the one of the file with zeros in its place. -/
theorem checksumFrom_header {features b₀ b₁ b₂ b₃ : UInt8} {rest data : List UInt8}
    (hdata : data = magic ++ 2 :: features :: b₀ :: b₁ :: b₂ :: b₃ :: rest)
    (hlength : data.length < 2 ^ 32) :
    checksumFrom data 0 0 =
      apCrc32Update 0 (magic ++ 2 :: features :: 0 :: 0 :: 0 :: 0 :: rest) := by
  subst hdata
  exact checksumFrom_zero (Nat.le_add_left 10 rest.length) hlength

/-- **The integrity check**: a file with a checksum is corrupted exactly if the stored checksum
is not the one of the file with zeros in its place; otherwise, the first block is opened at
offset 10. -/
theorem checksum_checked {features b₀ b₁ b₂ b₃ : UInt8} {rest data : List UInt8}
    (hdata : data = magic ++ 2 :: features :: b₀ :: b₁ :: b₂ :: b₃ :: rest)
    (hfeatures : features &&& binaryFeatureCrc32 ≠ 0) (hlength : data.length < 2 ^ 32)
    (source : BinarySource) (junk : BinaryFileParser) :
    ((∃ p, init source data junk = .error .ecorrupted p) ↔
      littleEndian32 b₀ b₁ b₂ b₃ ≠
        apCrc32Update 0 (magic ++ 2 :: features :: 0 :: 0 :: 0 :: 0 :: rest)) ∧
    (littleEndian32 b₀ b₁ b₂ b₃ =
        apCrc32Update 0 (magic ++ 2 :: features :: 0 :: 0 :: 0 :: 0 :: rest) →
      init source data junk = readNextBlockHeader.run
        ⟨source, data, 10, 2, features, 10, junk.currentBlock⟩) := by
  have hchecksum := checksumFrom_header hdata hlength
  subst hdata
  have hten : 10 ≤ (magic ++ 2 :: features :: b₀ :: b₁ :: b₂ :: b₃ :: rest).length :=
    Nat.le_add_left 10 rest.length
  have hopened : littleEndian32 b₀ b₁ b₂ b₃ =
        apCrc32Update 0 (magic ++ 2 :: features :: 0 :: 0 :: 0 :: 0 :: rest) →
      init source (magic ++ 2 :: features :: b₀ :: b₁ :: b₂ :: b₃ :: rest) junk =
        readNextBlockHeader.run ⟨source, magic ++ 2 :: features :: b₀ :: b₁ :: b₂ :: b₃ :: rest,
          10, 2, features, 10, junk.currentBlock⟩ := by
    intro hright
    rw [init_of_rightChecksum hfeatures (hright.trans hchecksum.symm),
      run_rewind fun _ => hten]
  refine ⟨⟨?_, ?_⟩, hopened⟩
  · rintro ⟨p, hp⟩ hright
    rw [hopened hright, run_readNextBlockHeader fun _ => hten] at hp
    split at hp
    · cases hp
    · cases hp
    · cases hp
  · intro hwrong
    exact init_of_wrongChecksum hfeatures (fun hright => hwrong (hright.trans hchecksum)) source
      junk

/-- A file with two blocks: with its checksum, the first block is opened, and with zeros in place
of the checksum, the file is corrupted. -/
theorem checksum_checked_twoBlocks :
    init .memory [115, 107, 121, 98, 2, 1, 231, 238, 88, 161, 3, 2, 0, 104, 105,
        4, 5, 0, 10, 0, 0, 0, 0] ⟨.memory, [], 0, 0, 0, 0, ⟨0, 0, 0⟩⟩ =
      .ok () ⟨.memory, [115, 107, 121, 98, 2, 1, 231, 238, 88, 161, 3, 2, 0, 104, 105,
        4, 5, 0, 10, 0, 0, 0, 0], 13, 2, 1, 10, ⟨3, 2, 13⟩⟩ ∧
    ∃ p, init .file [115, 107, 121, 98, 2, 1, 0, 0, 0, 0, 3, 2, 0, 104, 105,
        4, 5, 0, 10, 0, 0, 0, 0] ⟨.memory, [], 0, 0, 0, 0, ⟨0, 0, 0⟩⟩ = .error .ecorrupted p :=
  ⟨((checksum_checked rfl (by decide) (by decide) .memory _).2 (by decide +kernel)).trans rfl,
    (checksum_checked rfl (by decide) (by decide) .file _).1.2 (by decide +kernel)⟩

/-! ### Bursts -/

/-- A file that is accepted and has the feature bit of the checksum has the right checksum. -/
theorem checksum_of_accepted {source : BinarySource} {data : List UInt8} {junk p : BinaryFileParser}
    (h : init source data junk = .ok () p) (hfeature : p.features &&& binaryFeatureCrc32 ≠ 0) :
    ∃ features b₀ b₁ b₂ b₃ rest,
      data = magic ++ 2 :: features :: b₀ :: b₁ :: b₂ :: b₃ :: rest ∧
      features &&& binaryFeatureCrc32 ≠ 0 ∧
      littleEndian32 b₀ b₁ b₂ b₃ = checksumFrom data 0 0 := by
  by_cases hheader : ∃ n, HasHeader data n
  · obtain ⟨n, hheader⟩ := hheader
    obtain ⟨hinside, version, features, hten, hinit⟩ := init_of_hasHeader hheader
    have hfeatures : p.features = features := by
      rw [hinit, run_rewind fun _ => hinside, run_readNextBlockHeader fun _ => hinside] at h
      split at h
      · cases h
        rfl
      · cases h
      · cases h
        rfl
    obtain rfl := hten (hfeatures ▸ hfeature)
    cases hheader with
    | checksum hdata hfeatures hchecksum => exact ⟨_, _, _, _, _, _, hdata, hfeatures, hchecksum⟩
  · obtain ⟨e, herror⟩ := init_of_noHeader (not_exists.1 hheader)
    obtain ⟨q, hq⟩ := herror source junk
    cases h.symm.trans hq

/-- Lists of the same length that agree outside of four places. -/
theorem exists_burst {a b : List UInt8} {k : ℕ} (hlength : b.length = a.length)
    (hsame : ∀ i, i < k ∨ k + 4 ≤ i → b[i]? = a[i]?) (hne : b ≠ a) :
    ∃ before burst burst' after, a = before ++ burst ++ after ∧ b = before ++ burst' ++ after ∧
      burst'.length = burst.length ∧ burst.length ≤ 4 ∧ burst ≠ burst' := by
  have htake : b.take k = a.take k := by
    refine List.ext_getElem? fun i => ?_
    rw [List.getElem?_take, List.getElem?_take]
    split
    case isTrue hi => exact hsame i (.inl hi)
    case isFalse => rfl
  have hdrop : b.drop (k + 4) = a.drop (k + 4) := by
    refine List.ext_getElem? fun i => ?_
    rw [List.getElem?_drop, List.getElem?_drop]
    exact hsame _ (.inr (Nat.le_add_right _ _))
  have hsplit : ∀ l : List UInt8, l = l.take k ++ (l.drop k).take 4 ++ l.drop (k + 4) := by
    intro l
    rw [List.append_assoc, ← List.drop_drop, List.take_append_drop, List.take_append_drop]
  refine ⟨a.take k, (a.drop k).take 4, (b.drop k).take 4, a.drop (k + 4), hsplit a, ?_, ?_, ?_,
    fun heq => hne ?_⟩
  · rw [← htake, ← hdrop]
    exact hsplit b
  · rw [List.length_take, List.length_take, List.length_drop, List.length_drop, hlength]
  · exact List.length_take_le _ _
  · rw [hsplit b, hsplit a, htake, hdrop, heq]

/-- The checksums of two messages differ if the messages differ in four bytes side by side. -/
theorem apCrc32Update_ne (crc : BitVec 32) (header : List UInt8) {rest rest' : List UInt8} {k : ℕ}
    (hlength : rest'.length = rest.length) (hsame : ∀ i, i < k ∨ k + 4 ≤ i → rest'[i]? = rest[i]?)
    (hne : rest' ≠ rest) :
    apCrc32Update crc (header ++ rest) ≠ apCrc32Update crc (header ++ rest') := by
  obtain ⟨before, burst, burst', after, rfl, rfl, hburst, hfour, hdiffer⟩ :=
    exists_burst hlength hsame hne
  have hnoticed := ReflectedCrc.feed_burst_ne crc32Poly_msb crc
    (header ++ before) after hburst (by omega) hdiffer
  simpa only [apCrc32Update_eq_feed, List.append_assoc] using hnoticed

/-- **A burst is detected**: in a file that is accepted with a checksum, four bytes side by
side behind the checksum cannot be changed without the file being corrupted. -/
theorem burst_detected {source : BinarySource} {data : List UInt8} {junk p : BinaryFileParser}
    (hlength : data.length < 2 ^ 32) (h : init source data junk = .ok () p)
    (hfeature : p.features &&& binaryFeatureCrc32 ≠ 0) {data' : List UInt8} {k : ℕ}
    (hlength' : data'.length = data.length) (hne : data' ≠ data) (hk : 10 ≤ k)
    (hsame : ∀ i, i < k ∨ k + 4 ≤ i → data'[i]? = data[i]?) (source' : BinarySource)
    (junk' : BinaryFileParser) : ∃ q, init source' data' junk' = .error .ecorrupted q := by
  obtain ⟨features, b₀, b₁, b₂, b₃, rest, rfl, hfeatures, hchecksum⟩ :=
    checksum_of_accepted h hfeature
  -- the header is the same
  have hheader : data'.take 10 = magic ++ [2, features, b₀, b₁, b₂, b₃] := by
    refine List.ext_getElem? fun i => ?_
    rw [List.getElem?_take]
    split
    case isTrue hi =>
      rw [hsame i (.inl (by omega)), ← List.getElem?_take_of_lt hi]
      rfl
    case isFalse hi => exact (List.getElem?_eq_none (by simp [magic]; omega)).symm
  have hdata' : data' = magic ++ 2 :: features :: b₀ :: b₁ :: b₂ :: b₃ :: data'.drop 10 := by
    conv_lhs => rw [← List.take_append_drop 10 data', hheader]
    rfl
  have hsame' : ∀ i, i < k - 10 ∨ k - 10 + 4 ≤ i → (data'.drop 10)[i]? = rest[i]? := by
    intro i hi
    rw [List.getElem?_drop, hsame (10 + i) (by omega), Nat.add_comm]
    rfl
  have hne' : data'.drop 10 ≠ rest := fun heq => hne (by rw [hdata', heq])
  have hcount : (data'.drop 10).length = rest.length := by
    rw [List.length_drop, hlength']
    rfl
  have hdiffer := apCrc32Update_ne 0 (magic ++ [2, features, 0, 0, 0, 0]) hcount hsame' hne'
  rw [hdata']
  refine init_of_wrongChecksum hfeatures (fun hright => hdiffer ?_) source' junk'
  have hequal := hchecksum.symm.trans hright
  rw [checksumFrom_header rfl hlength, checksumFrom_header rfl (by rwa [← hdata', hlength'])]
    at hequal
  exact hequal

/-- A file with a single block of two bytes, in which a bit of the last byte is flipped. -/
theorem burst_detected_oneBit :
    ∃ q, init .memory (magic ++ [2, 1, 219, 173, 145, 76, 1, 2, 0, 7] ++ [9])
      ⟨.memory, [], 0, 0, 0, 0, ⟨0, 0, 0⟩⟩ = .error .ecorrupted q := by
  have hchecksum : littleEndian32 219 173 145 76 =
      checksumFrom (magic ++ 2 :: 1 :: 219 :: 173 :: 145 :: 76 :: [1, 2, 0, 7, 8]) 0 0 := by
    rw [checksumFrom_header rfl (by decide)]
    decide +kernel
  have haccepted : init .memory (magic ++ [2, 1, 219, 173, 145, 76, 1, 2, 0, 7] ++ [8])
      ⟨.memory, [], 0, 0, 0, 0, ⟨0, 0, 0⟩⟩ = .ok ()
        ⟨.memory, magic ++ [2, 1, 219, 173, 145, 76, 1, 2, 0, 7, 8], 13, 2, 1, 10, ⟨1, 2, 13⟩⟩ :=
    init_of_rightChecksum (by decide) hchecksum .memory _
  have hsame : ∀ i, i < 11 ∨ 11 + 4 ≤ i →
      (magic ++ [2, 1, 219, 173, 145, 76, 1, 2, 0, 7] ++ [9])[i]? =
        (magic ++ [2, 1, 219, 173, 145, 76, 1, 2, 0, 7] ++ [8])[i]? := by
    intro i hi
    rcases hi with hlt | hge
    · have hinside : i < (magic ++ [2, 1, 219, 173, 145, 76, 1, 2, 0, 7]).length :=
        Nat.lt_of_lt_of_le hlt (by decide)
      rw [List.getElem?_append_left hinside, List.getElem?_append_left hinside]
    · rw [List.getElem?_eq_none hge, List.getElem?_eq_none hge]
  exact burst_detected (by decide) haccepted (by decide) (by decide) (by decide) (by decide)
    hsame .memory _

end Skybrush
