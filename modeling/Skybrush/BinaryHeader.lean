import Skybrush.BinaryFile

/-!
# The Header of Binary Files

A binary file starts with its header: four fixed bytes, the version, for version 2 the feature
bits, and a checksum if the feature bits tell of one. `HasHeader` says so of the bytes. The
initialisation of a parser accepts the files that have a header, and rejects all others. It
does so in the same way from memory and by a descriptor, and whatever was in the parser
before.

## Main results

* `BinaryFileParser.init_of_hasHeader`: a file that has a header is opened behind it.
* `BinaryFileParser.init_of_noHeader`: a file that has none is rejected.
-/

namespace Skybrush

open BinaryFileParser

/-! ### The format -/

/-- The header of a file, and where it ends. -/
inductive HasHeader (data : List UInt8) : ℕ → Prop
  | versionOne {rest : List UInt8} (hdata : data = magic ++ 1 :: rest) : HasHeader data 5
  | noChecksum {features : UInt8} {rest : List UInt8}
      (hdata : data = magic ++ 2 :: features :: rest)
      (hfeatures : features &&& binaryFeatureCrc32 = 0) : HasHeader data 6
  | checksum {features b₀ b₁ b₂ b₃ : UInt8} {rest : List UInt8}
      (hdata : data = magic ++ 2 :: features :: b₀ :: b₁ :: b₂ :: b₃ :: rest)
      (hfeatures : features &&& binaryFeatureCrc32 ≠ 0)
      (hchecksum : littleEndian32 b₀ b₁ b₂ b₃ = checksumFrom data 0 0) : HasHeader data 10

namespace BinaryFileParser

/-! ### The pieces of the header -/

section Pieces

variable {p : BinaryFileParser} (h : p.CanBeAt p.offset)
include h

theorem run_readMagic :
    readMagic.run p =
      if p.bytesAhead 4 = magic then .ok () { p with offset := p.offset + 4 }
      else .error .eparse { p with offset := p.offset + (p.bytesAhead 4).length } := by
  rw [readMagic, run_bind_of_ok (run_read h 4)]
  split
  case isTrue hmagic =>
    rw [hmagic, run_bind_of_ok (run_failIf (by decide) _ _), run_failIf (by decide)]
    rfl
  case isFalse hother =>
    by_cases hlength : (p.bytesAhead 4).length ≠ 4
    · exact run_bind_of_error (run_failIf_of hlength _ _) _
    · rw [run_bind_of_ok (run_failIf hlength _ _), run_failIf_of hother]

theorem run_readVersion :
    readVersion.run p =
      match p.bytesAhead 1 with
      | [version] =>
          if version = 1 ∨ version = 2 then
            .ok version { p with offset := p.offset + 1, version := version }
          else .error .eparse { p with offset := p.offset + 1, version := version }
      | bytes => .error .eparse { p with offset := p.offset + bytes.length } := by
  rw [readVersion, run_bind_of_ok (run_read h 1)]
  rcases p.bytesAhead 1 with _ | ⟨version, _ | ⟨_, _⟩⟩
  · rfl
  · dsimp only
    split
    case isTrue hversion =>
      have hknown : ¬ (version ≠ 1 ∧ version ≠ 2) := by tauto
      exact run_bind_of_ok (run_failIf hknown _ _) _
    case isFalse hversion =>
      exact run_bind_of_error (run_failIf_of (not_or.1 hversion) _ _) _
  · rfl

theorem run_readFeatures :
    (readFeatures 2).run p =
      match p.bytesAhead 1 with
      | [features] => .ok features { p with offset := p.offset + 1, features := features }
      | bytes => .error .eparse { p with offset := p.offset + bytes.length } := by
  rw [readFeatures, if_pos rfl, run_bind_of_ok (run_read h 1)]
  rcases p.bytesAhead 1 with _ | ⟨features, _ | ⟨_, _⟩⟩ <;> rfl

theorem run_readExpectedCrc32 {features : UInt8} (hfeatures : features &&& binaryFeatureCrc32 ≠ 0) :
    (readExpectedCrc32 features).run p =
      match p.bytesAhead 4 with
      | [b₀, b₁, b₂, b₃] => .ok (littleEndian32 b₀ b₁ b₂ b₃) { p with offset := p.offset + 4 }
      | bytes => .error .eparse { p with offset := p.offset + bytes.length } := by
  rw [readExpectedCrc32, if_pos hfeatures, run_bind_of_ok (run_read h 4)]
  rcases p.bytesAhead 4 with _ | ⟨_, _ | ⟨_, _ | ⟨_, _ | ⟨_, _ | ⟨_, _⟩⟩⟩⟩⟩ <;> rfl

theorem run_validateCrc32 {features : UInt8} (hfeatures : features &&& binaryFeatureCrc32 ≠ 0)
    (expectedCrc32 : BitVec 32) :
    (validateCrc32 features expectedCrc32).run p =
      if expectedCrc32 = checksumFrom p.data 0 0 then .ok () p else .error .ecorrupted p := by
  rw [validateCrc32, if_pos hfeatures, run_bind_of_ok (run_getCrc32 h)]
  split
  case isTrue hequal => exact run_failIf (not_not_intro hequal) _ _
  case isFalse hother => exact run_failIf_of hother _ _

end Pieces

/-! ### Files that have a header -/

section Start

variable (source : BinarySource) (version features : UInt8) (start : ℕ) (block : BinaryBlock)

/-- The first bytes are read. -/
theorem run_readMagic_magic (rest : List UInt8) :
    readMagic.run ⟨source, magic ++ rest, 0, version, features, start, block⟩ =
      .ok () ⟨source, magic ++ rest, 4, version, features, start, block⟩ := by
  rw [run_readMagic fun _ => Nat.zero_le _]
  rfl

/-- Behind them, a known version is read. -/
theorem run_readVersion_known {version' : UInt8} (h : version' = 1 ∨ version' = 2)
    (rest : List UInt8) :
    readVersion.run ⟨source, magic ++ version' :: rest, 4, version, features, start, block⟩ =
      .ok version' ⟨source, magic ++ version' :: rest, 5, version', features, start, block⟩ := by
  have hlength : (magic ++ version' :: rest).length = rest.length + 5 := rfl
  rw [run_readVersion fun _ => by dsimp only; omega]
  exact if_pos h

end Start

/-- Behind version 2 and the features, the first block is opened. -/
theorem init_versionTwo (features : UInt8) (rest : List UInt8) (source : BinarySource)
    (junk : BinaryFileParser) :
    init source (magic ++ 2 :: features :: rest) junk = (openFirstBlock features).run
      ⟨source, magic ++ 2 :: features :: rest, 6, 2, features, junk.startOfFirstBlock,
        junk.currentBlock⟩ := by
  obtain ⟨_, _, _, version, features', start, block⟩ := junk
  have hlength : (magic ++ 2 :: features :: rest).length = rest.length + 6 := rfl
  have hfeatures : (readFeatures 2).run
        ⟨source, magic ++ 2 :: features :: rest, 5, 2, features', start, block⟩ =
      .ok features
        ⟨source, magic ++ 2 :: features :: rest, 6, 2, features, start, block⟩ := by
    rw [run_readFeatures fun _ => by dsimp only; omega]
    rfl
  rw [init, initCommon, run_bind_of_ok (run_readMagic_magic ..),
    run_bind_of_ok (run_readVersion_known _ _ _ _ _ (.inr rfl) _), run_bind_of_ok hfeatures]

section Checksum

variable {features b₀ b₁ b₂ b₃ : UInt8} {rest : List UInt8}
variable (hfeatures : features &&& binaryFeatureCrc32 ≠ 0)
include hfeatures

/-- Behind the features, the checksum is read. -/
theorem run_readExpectedCrc32_four (source : BinarySource) (start : ℕ) (block : BinaryBlock) :
    (readExpectedCrc32 features).run
        ⟨source, magic ++ 2 :: features :: b₀ :: b₁ :: b₂ :: b₃ :: rest, 6, 2, features, start,
          block⟩ =
      .ok (littleEndian32 b₀ b₁ b₂ b₃)
        ⟨source, magic ++ 2 :: features :: b₀ :: b₁ :: b₂ :: b₃ :: rest, 10, 2, features, start,
          block⟩ := by
  have hlength : (magic ++ 2 :: features :: b₀ :: b₁ :: b₂ :: b₃ :: rest).length =
    rest.length + 10 := rfl
  rw [run_readExpectedCrc32 (fun _ => by dsimp only; omega) hfeatures]
  rfl

/-- Behind the checksum, it is compared with the one of the file. -/
theorem run_validateCrc32_ten (source : BinarySource) (block : BinaryBlock) :
    (validateCrc32 features (littleEndian32 b₀ b₁ b₂ b₃)).run
        ⟨source, magic ++ 2 :: features :: b₀ :: b₁ :: b₂ :: b₃ :: rest, 10, 2, features, 10,
          block⟩ =
      if littleEndian32 b₀ b₁ b₂ b₃ =
          checksumFrom (magic ++ 2 :: features :: b₀ :: b₁ :: b₂ :: b₃ :: rest) 0 0 then
        .ok () ⟨source, magic ++ 2 :: features :: b₀ :: b₁ :: b₂ :: b₃ :: rest, 10, 2, features,
          10, block⟩
      else .error .ecorrupted ⟨source, magic ++ 2 :: features :: b₀ :: b₁ :: b₂ :: b₃ :: rest, 10,
        2, features, 10, block⟩ := by
  have hlength : (magic ++ 2 :: features :: b₀ :: b₁ :: b₂ :: b₃ :: rest).length =
    rest.length + 10 := rfl
  rw [run_validateCrc32 (fun _ => by dsimp only; omega) hfeatures]

/-- With the right checksum, the first block is opened at offset 10. -/
theorem init_of_rightChecksum
    (h : littleEndian32 b₀ b₁ b₂ b₃ =
      checksumFrom (magic ++ 2 :: features :: b₀ :: b₁ :: b₂ :: b₃ :: rest) 0 0)
    (source : BinarySource) (junk : BinaryFileParser) :
    init source (magic ++ 2 :: features :: b₀ :: b₁ :: b₂ :: b₃ :: rest) junk =
      rewind.run ⟨source, magic ++ 2 :: features :: b₀ :: b₁ :: b₂ :: b₃ :: rest, 10, 2, features,
        10, junk.currentBlock⟩ := by
  rw [init_versionTwo, openFirstBlock, run_bind_of_ok (run_readExpectedCrc32_four hfeatures ..)]
  exact run_bind_of_ok ((run_validateCrc32_ten hfeatures ..).trans (if_pos h)) fun _ => rewind

/-- With a wrong checksum, the file is corrupted. -/
theorem init_of_wrongChecksum
    (h : littleEndian32 b₀ b₁ b₂ b₃ ≠
      checksumFrom (magic ++ 2 :: features :: b₀ :: b₁ :: b₂ :: b₃ :: rest) 0 0)
    (source : BinarySource) (junk : BinaryFileParser) :
    ∃ p, init source (magic ++ 2 :: features :: b₀ :: b₁ :: b₂ :: b₃ :: rest) junk =
      .error .ecorrupted p := by
  rw [init_versionTwo, openFirstBlock, run_bind_of_ok (run_readExpectedCrc32_four hfeatures ..)]
  exact ⟨_, run_bind_of_error ((run_validateCrc32_ten hfeatures ..).trans (if_neg h))
    fun _ => rewind⟩

end Checksum

/-- **A file that has a header is opened** behind it, from memory or by its descriptor. A
header that tells of a checksum ends at offset 10. -/
theorem init_of_hasHeader {data : List UInt8} {n : ℕ} (h : HasHeader data n) :
    n ≤ data.length ∧ ∃ version features, (features &&& binaryFeatureCrc32 ≠ 0 → n = 10) ∧
      ∀ source (junk : BinaryFileParser), init source data junk =
        rewind.run ⟨source, data, n, version, features, n, junk.currentBlock⟩ := by
  cases h with
  | @versionOne rest hdata =>
      subst hdata
      have hlength : (magic ++ 1 :: rest).length = rest.length + 5 := rfl
      refine ⟨by omega, 1, 0, fun hcrc => absurd rfl hcrc, fun source junk => ?_⟩
      rw [init, initCommon, run_bind_of_ok (run_readMagic_magic ..),
        run_bind_of_ok (run_readVersion_known _ _ _ _ _ (.inl rfl) _)]
      rfl
  | @noChecksum features rest hdata hfeatures =>
      subst hdata
      have hlength : (magic ++ 2 :: features :: rest).length = rest.length + 6 := rfl
      have hskip : ∀ p, (readExpectedCrc32 features).run p = .ok 0 p := fun p => by
        rw [readExpectedCrc32, if_neg (not_not_intro hfeatures)]
        rfl
      have hvalidate : ∀ p, (validateCrc32 features 0).run p = .ok () p := fun p => by
        rw [validateCrc32, if_neg (not_not_intro hfeatures)]
        rfl
      refine ⟨by omega, 2, features, fun hcrc => absurd hfeatures hcrc, fun source junk => ?_⟩
      rw [init_versionTwo, openFirstBlock, run_bind_of_ok (hskip _)]
      exact run_bind_of_ok (hvalidate ⟨source, _, 6, 2, features, 6, _⟩) fun _ => rewind
  | @checksum features b₀ b₁ b₂ b₃ rest hdata hfeatures hchecksum =>
      subst hdata
      have hlength : (magic ++ 2 :: features :: b₀ :: b₁ :: b₂ :: b₃ :: rest).length =
        rest.length + 10 := rfl
      refine ⟨by omega, 2, features, fun _ => rfl, fun source junk => ?_⟩
      exact init_of_rightChecksum hfeatures hchecksum source junk

/-! ### Files that have none -/

/-- Behind the first bytes, there must be a version that is known. -/
theorem init_error_of_version {rest : List UInt8}
    (h : ∀ version rest', rest = version :: rest' → version ≠ 1 ∧ version ≠ 2)
    (source : BinarySource) (junk : BinaryFileParser) :
    ∃ p, init source (magic ++ rest) junk = .error .eparse p := by
  obtain ⟨_, _, _, version, features, start, block⟩ := junk
  have hversion : ∃ p, readVersion.run
      ⟨source, magic ++ rest, 4, version, features, start, block⟩ = .error .eparse p := by
    have hlength : (magic ++ rest).length = rest.length + 4 := rfl
    rw [run_readVersion fun _ => by dsimp only; omega]
    rcases rest with _ | ⟨version', rest'⟩
    · exact ⟨_, rfl⟩
    · exact ⟨_, if_neg (not_or.2 (h version' rest' rfl))⟩
  obtain ⟨p, hp⟩ := hversion
  rw [init, initCommon, run_bind_of_ok (run_readMagic_magic ..)]
  exact ⟨p, run_bind_of_error hp _⟩

/-- Behind version 2, there must be the features. -/
theorem init_error_of_features (source : BinarySource) (junk : BinaryFileParser) :
    ∃ p, init source (magic ++ [2]) junk = .error .eparse p := by
  obtain ⟨_, _, _, version, features, start, block⟩ := junk
  have hfeatures : (readFeatures 2).run
      ⟨source, magic ++ [2], 5, 2, features, start, block⟩ =
        .error .eparse ⟨source, magic ++ [2], 5, 2, features, start, block⟩ := by
    rw [run_readFeatures fun _ => Nat.le_refl 5]
    rfl
  rw [init, initCommon, run_bind_of_ok (run_readMagic_magic ..),
    run_bind_of_ok (run_readVersion_known _ _ _ _ _ (.inr rfl) _)]
  exact ⟨_, run_bind_of_error hfeatures _⟩

/-- Behind features that tell of a checksum, there must be a checksum, and the right one. -/
theorem init_error_of_checksum {features : UInt8} {rest : List UInt8}
    (hfeatures : features &&& binaryFeatureCrc32 ≠ 0)
    (h : ∀ b₀ b₁ b₂ b₃ rest', rest = b₀ :: b₁ :: b₂ :: b₃ :: rest' →
      littleEndian32 b₀ b₁ b₂ b₃ ≠ checksumFrom (magic ++ 2 :: features :: rest) 0 0) :
    ∃ e, ∀ source junk, ∃ p, init source (magic ++ 2 :: features :: rest) junk = .error e p := by
  have hlength : (magic ++ 2 :: features :: rest).length = rest.length + 6 := rfl
  have hexpected : ∀ source start block, (readExpectedCrc32 features).run
        ⟨source, magic ++ 2 :: features :: rest, 6, 2, features, start, block⟩ =
      match rest.take 4 with
      | [b₀, b₁, b₂, b₃] => .ok (littleEndian32 b₀ b₁ b₂ b₃)
          ⟨source, magic ++ 2 :: features :: rest, 10, 2, features, start, block⟩
      | bytes => .error .eparse
          ⟨source, magic ++ 2 :: features :: rest, 6 + bytes.length, 2, features, start, block⟩ :=
    fun source start block =>
      run_readExpectedCrc32 (fun _ => by dsimp only; omega) hfeatures
  rcases rest with _ | ⟨b₀, _ | ⟨b₁, _ | ⟨b₂, _ | ⟨b₃, rest⟩⟩⟩⟩
  case cons.cons.cons.cons =>
    exact ⟨.ecorrupted, init_of_wrongChecksum hfeatures (h b₀ b₁ b₂ b₃ rest rfl)⟩
  -- Otherwise, the checksum is cut.
  all_goals
    refine ⟨.eparse, fun source junk => ?_⟩
    rw [init_versionTwo, openFirstBlock]
    exact ⟨_, run_bind_of_error (hexpected ..) _⟩

/-- **A file that has no header is rejected**, with the same error, from memory or by its
descriptor. -/
theorem init_of_noHeader {data : List UInt8} (h : ∀ n, ¬ HasHeader data n) :
    ∃ e, ∀ source junk, ∃ p, init source data junk = .error e p := by
  by_cases hmagic : data.take 4 = magic
  · obtain ⟨rest, rfl⟩ : ∃ rest, data = magic ++ rest :=
      ⟨data.drop 4, by rw [← hmagic, List.take_append_drop]⟩
    by_cases htwo : ∃ rest', rest = 2 :: rest'
    · obtain ⟨rest', rfl⟩ := htwo
      rcases rest' with _ | ⟨features, rest'⟩
      · exact ⟨_, init_error_of_features⟩
      · by_cases hfeatures : features &&& binaryFeatureCrc32 = 0
        · exact absurd (.noChecksum rfl hfeatures) (h 6)
        · refine init_error_of_checksum hfeatures ?_
          rintro b₀ b₁ b₂ b₃ rest' rfl hchecksum
          exact h 10 (.checksum rfl hfeatures hchecksum)
    · refine ⟨_, init_error_of_version ?_⟩
      rintro version rest' rfl
      refine ⟨?_, ?_⟩
      · rintro rfl
        exact h 5 (.versionOne rfl)
      · rintro rfl
        exact htwo ⟨rest', rfl⟩
  · have hfail : ∀ p, p.data = data → p.offset = 0 → ∃ q,
        readMagic.run p = .error .eparse q := by
      rintro p rfl hoffset
      rw [run_readMagic fun _ => by rw [hoffset]; exact Nat.zero_le _, bytesAhead, hoffset]
      exact ⟨_, if_neg hmagic⟩
    refine ⟨.eparse, fun source junk => ?_⟩
    obtain ⟨q, hq⟩ := hfail { junk with source := source, data := data, offset := 0 } rfl rfl
    exact ⟨q, run_bind_of_error hq _⟩

end BinaryFileParser

end Skybrush
