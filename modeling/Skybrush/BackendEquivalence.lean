import Skybrush.BinarySession
import Skybrush.Library.Lockstep

/-!
# Parsers on Memory and on Files

A parser can be opened on a buffer in memory and on a file descriptor. The two differ in what
they do past the end of the data: there is no such place in memory, while a descriptor can go
there, and reads nothing. A block whose body is cut leads there, so a parser on memory reports
an error behind such a block, and a parser on a file reports the end of the file.

## Main results

* `lockstep_action`: if all blocks fit, both parsers do every operation in lockstep.
* `exists_observe_ne`: if a block does not fit, some operations tell the parsers apart.
* `sessions_eq_iff`: the parsers cannot be told apart exactly if all blocks fit.
-/

namespace Skybrush

open BinaryFileParser

/-! ### Blocks that fit -/

/-- From an offset on, the body of every block is inside the data, up to the first place where
there is no complete header of a block, or where the type of the block is
`SB_BINARY_BLOCK_NONE`. -/
inductive BlocksFit (data : List UInt8) : ℕ → Prop
  | missing {offset : ℕ} (h : headerAt data offset = .missing) : BlocksFit data offset
  | cut {offset : ℕ} {type : UInt8} (h : headerAt data offset = .cut type) : BlocksFit data offset
  | none {offset length : ℕ} (h : headerAt data offset = .complete binaryBlockNone length) :
      BlocksFit data offset
  | block {offset length : ℕ} {type : UInt8} (h : headerAt data offset = .complete type length)
      (hbody : offset + 3 + length ≤ data.length) (hrest : BlocksFit data (offset + 3 + length)) :
      BlocksFit data offset

theorem BlocksFit.next {data : List UInt8} {offset length : ℕ} {type : UInt8}
    (h : BlocksFit data offset) (hheader : headerAt data offset = .complete type length)
    (htype : type ≠ binaryBlockNone) :
    offset + 3 + length ≤ data.length ∧ BlocksFit data (offset + 3 + length) := by
  cases h with
  | missing h => rw [h] at hheader; cases hheader
  | cut h => rw [h] at hheader; cases hheader
  | none h =>
      rw [h] at hheader
      cases hheader
      exact absurd rfl htype
  | block h hbody hrest =>
      rw [h] at hheader
      cases hheader
      exact ⟨hbody, hrest⟩

theorem BlocksFit.of_next {data : List UInt8} {offset length : ℕ} {type : UInt8}
    (hheader : headerAt data offset = .complete type length)
    (h : type ≠ binaryBlockNone →
      offset + 3 + length ≤ data.length ∧ BlocksFit data (offset + 3 + length)) :
    BlocksFit data offset := by
  by_cases htype : type = binaryBlockNone
  · subst htype
    exact .none hheader
  · obtain ⟨hbody, hrest⟩ := h htype
    exact .block hheader hbody hrest

namespace BinaryFileParser

/-- The blocks behind the current one fit, and it fits itself. -/
def FitsAhead (p : BinaryFileParser) : Prop :=
  p.isCurrentBlockValid → p.nextOffset ≤ p.data.length ∧ BlocksFit p.data p.nextOffset

/-- The same parser on a file. -/
def asFile (p : BinaryFileParser) : BinaryFileParser := { p with source := .file }

/-- A parser on memory that has been opened and whose blocks fit. -/
structure Sound (p : BinaryFileParser) : Prop where
  memory : p.source = .memory
  inside : p.offset ≤ p.data.length
  startInside : p.startOfFirstBlock ≤ p.data.length
  startFits : BlocksFit p.data p.startOfFirstBlock
  startComplete : ∀ type, headerAt p.data p.startOfFirstBlock ≠ .cut type
  fitsAhead : p.FitsAhead

/-- A parser on memory whose blocks fit, and the same parser on a file. -/
def Twins (p q : BinaryFileParser) : Prop := p.Sound ∧ q = p.asFile

theorem canBeAt_of_file {p : BinaryFileParser} (h : p.source = .file) (offset : ℕ) :
    p.CanBeAt offset := by
  intro hmemory
  rw [h] at hmemory
  cases hmemory

/-! ### Lockstep -/

/-- Twins read the header of a block in lockstep. If it is cut, the current block is still the
one before. -/
theorem sameOutcome_readNextBlockHeader {p : BinaryFileParser} (h : p.Sound) {offset : ℕ}
    (hinside : offset ≤ p.data.length) (hfits : BlocksFit p.data offset)
    (hcut : ∀ type, headerAt p.data offset = .cut type → p.isCurrentBlockValid) :
    SameOutcome (fun _ => Twins) Twins (readNextBlockHeader.run { p with offset := offset })
      (readNextBlockHeader.run { p.asFile with offset := offset }) := by
  rw [run_readNextBlockHeader fun _ => hinside, run_readNextBlockHeader (canBeAt_of_file rfl _)]
  dsimp only [asFile]
  cases hheader : headerAt p.data offset with
  | missing =>
      exact .ok ⟨⟨h.memory, hinside, h.startInside, h.startFits, h.startComplete,
        fun hvalid => absurd rfl hvalid⟩, rfl⟩
  | cut type =>
      exact .error ⟨⟨h.memory, Nat.le_refl _, h.startInside, h.startFits, h.startComplete,
        fun _ => h.fitsAhead (hcut type hheader)⟩, rfl⟩
  | complete type length =>
      exact .ok ⟨⟨h.memory, headerAt_complete hheader, h.startInside, h.startFits,
        h.startComplete, hfits.next hheader⟩, rfl⟩

theorem lockstep_rewind : Lockstep Twins rewind rewind (fun _ => Twins) Twins := by
  rintro p q ⟨h, rfl⟩
  rw [run_rewind fun _ => h.startInside, run_rewind (canBeAt_of_file rfl _)]
  exact sameOutcome_readNextBlockHeader h h.startInside h.startFits
    fun type hcut => absurd hcut (h.startComplete type)

theorem lockstep_seekToNextBlock :
    Lockstep Twins seekToNextBlock seekToNextBlock (fun _ => Twins) Twins := by
  rintro p q ⟨h, rfl⟩
  by_cases hvalid : p.isCurrentBlockValid
  · obtain ⟨hinside, hfits⟩ := h.fitsAhead hvalid
    rw [run_seekToNextBlock hvalid fun _ => hinside,
      run_seekToNextBlock (p := p.asFile) hvalid (canBeAt_of_file rfl _)]
    exact sameOutcome_readNextBlockHeader h hinside hfits fun _ _ => hvalid
  · rw [run_seekToNextBlock_invalid hvalid, run_seekToNextBlock_invalid (p := p.asFile) hvalid]
    exact .error ⟨h, rfl⟩

/-- Twins search in lockstep if they do so from the next block on. -/
theorem sameOutcome_findLoop {blockType : ℕ} {p : BinaryFileParser} (h : p.Sound)
    (hnext : SameOutcome (fun _ => Twins) Twins
      ((do seekToNextBlock; findLoop blockType : Action Unit).run p)
      ((do seekToNextBlock; findLoop blockType : Action Unit).run p.asFile)) :
    SameOutcome (fun _ => Twins) Twins ((findLoop blockType).run p)
      ((findLoop blockType).run p.asFile) := by
  rw [run_findLoop, run_findLoop]
  change SameOutcome _ _ _ (if ¬ p.isCurrentBlockValid then _ else
    if p.getCurrentBlock.type.toNat = blockType then _ else _)
  split
  · exact .error ⟨h, rfl⟩
  · split
    · exact .ok ⟨h, rfl⟩
    · exact hnext

/-- Twins search in lockstep: by induction on the blocks that are ahead. -/
theorem lockstep_findLoop (blockType : ℕ) :
    Lockstep Twins (findLoop blockType) (findLoop blockType) (fun _ => Twins) Twins := by
  intro p q h
  induction hn : p.blocksAhead using Nat.strongRecOn generalizing p q with
  | _ n ih =>
      have hsame := lockstep_seekToNextBlock p q h
      obtain ⟨hsound, rfl⟩ := h
      refine sameOutcome_findLoop hsound ?_
      rw [EStateM.run_bind, EStateM.run_bind]
      generalize hnext : seekToNextBlock.run p = r at hsame
      generalize seekToNextBlock.run p.asFile = r' at hsame
      cases hsame with
      | @ok u p' q' htwins => exact ih _ (hn ▸ blocksAhead_lt hnext) p' q' htwins rfl
      | error htwins => exact .error htwins

theorem lockstep_readCurrentBlock :
    Lockstep Twins readCurrentBlock readCurrentBlock (fun _ => Twins) Twins := by
  rintro p q ⟨h, rfl⟩
  by_cases hvalid : p.isCurrentBlockValid
  · have hinside := (h.fitsAhead hvalid).1
    rw [run_readCurrentBlock hvalid hinside,
      run_readCurrentBlock (p := p.asFile) hvalid hinside]
    exact .ok ⟨⟨h.memory, hinside, h.startInside, h.startFits, h.startComplete, h.fitsAhead⟩, rfl⟩
  · rw [run_readCurrentBlock_invalid hvalid, run_readCurrentBlock_invalid (p := p.asFile) hvalid]
    exact .error ⟨h, rfl⟩

theorem lockstep_action (op : BinaryOp) :
    Lockstep Twins op.action op.action (fun _ => Twins) Twins := by
  have hnothing : Lockstep Twins (pure [] : Action (List UInt8)) (pure []) (fun _ => Twins)
      Twins := lockstep_pure fun _ _ h => h
  cases op with
  | rewind => exact lockstep_rewind.bind fun _ => hnothing
  | seekToNextBlock => exact lockstep_seekToNextBlock.bind fun _ => hnothing
  | findFirstBlockByType blockType =>
      exact (lockstep_rewind.bind fun _ => lockstep_findLoop blockType).bind fun _ => hnothing
  | readCurrentBlock => exact lockstep_readCurrentBlock

/-- **Twins do every operation in lockstep**, and stay twins. -/
theorem step_twins {p q : BinaryFileParser} (op : BinaryOp) (h : Twins p q) :
    (p.step op).1 = (q.step op).1 ∧ Twins (p.step op).2 (q.step op).2 := by
  have hsame := lockstep_action op p q h
  rw [step, step]
  generalize op.action.run p = r at hsame ⊢
  generalize op.action.run q = r' at hsame ⊢
  cases hsame with
  | @ok bytes p' q' htwins =>
      obtain ⟨hsound, rfl⟩ := htwins
      exact ⟨rfl, hsound, rfl⟩
  | @error e p' q' htwins =>
      obtain ⟨hsound, rfl⟩ := htwins
      exact ⟨rfl, hsound, rfl⟩

/-! ### A block that does not fit -/

/-- Behind a block whose body is cut, a file has ended, but there is no such place in
memory. -/
theorem step_seekToNextBlock_ne {p : BinaryFileParser} (hmemory : p.source = .memory)
    (hvalid : p.isCurrentBlockValid) (h : p.data.length < p.nextOffset) :
    (p.step .seekToNextBlock).1 ≠ (p.asFile.step .seekToNextBlock).1 := by
  have houtside : ¬ p.CanBeAt p.nextOffset := fun hcan => Nat.not_le.2 h (hcan hmemory)
  have hmissing : headerAt p.data p.nextOffset = .missing := by
    rw [headerAt, List.drop_of_length_le (Nat.le_of_lt h)]
  have hfile : seekToNextBlock.run p.asFile = .ok ()
      ({ p.asFile with offset := p.nextOffset }.withBlock ⟨binaryBlockNone, 0, 0⟩) := by
    rw [run_seekToNextBlock (p := p.asFile) hvalid (canBeAt_of_file rfl _),
      run_readNextBlockHeader (canBeAt_of_file rfl _)]
    dsimp only [asFile, nextOffset] at hmissing ⊢
    rw [hmissing]
  rw [step_seekToNextBlock_error (run_seekToNextBlock_outside houtside),
    step_seekToNextBlock_ok hfile]
  intro heq
  cases congrArg Observation.result heq

/-- **A block that does not fit tells the parsers apart**: by going from block to block. -/
theorem exists_observe_ne {p : BinaryFileParser} (hmemory : p.source = .memory)
    (h : ¬ p.FitsAhead) : ∃ ops, observe step p ops ≠ observe step p.asFile ops := by
  induction hn : p.blocksAhead using Nat.strongRecOn generalizing p with
  | _ n ih =>
      obtain ⟨hvalid, hnot⟩ := Classical.not_imp.1 h
      by_cases hinside : p.nextOffset ≤ p.data.length
      · have hfits : ¬ BlocksFit p.data p.nextOffset := fun hfits => hnot ⟨hinside, hfits⟩
        cases hheader : headerAt p.data p.nextOffset with
        | missing => exact absurd (.missing hheader) hfits
        | cut type => exact absurd (.cut hheader) hfits
        | complete type length =>
            let p' : BinaryFileParser :=
              { p with offset := p.nextOffset + 3 }.withBlock ⟨type, length, p.nextOffset + 3⟩
            have hnext : seekToNextBlock.run p = .ok () p' :=
              run_seekToNextBlock_complete hvalid hheader
            have hnext' : seekToNextBlock.run p.asFile = .ok () p'.asFile :=
              run_seekToNextBlock_complete (p := p.asFile) hvalid hheader
            have hmemory' : p'.source = .memory := hmemory
            have hahead : ¬ p'.FitsAhead := fun hahead => hfits (.of_next hheader hahead)
            obtain ⟨ops, hne⟩ := ih _ (hn ▸ blocksAhead_lt hnext) hmemory' hahead rfl
            refine ⟨.seekToNextBlock :: ops, ?_⟩
            rw [observe, observe, step_seekToNextBlock_ok hnext, step_seekToNextBlock_ok hnext']
            intro heq
            exact hne (List.cons.inj heq).2
      · refine ⟨[.seekToNextBlock], fun heq => ?_⟩
        exact step_seekToNextBlock_ne hmemory hvalid (Nat.lt_of_not_le hinside)
          (List.cons.inj heq).1

end BinaryFileParser

/-- Whether a parser is opened or not does not depend on where it reads from. -/
theorem session_of_noHeader {data : List UInt8} (h : ∀ n, ¬ HasHeader data n) :
    ∃ e, ∀ source junk ops, session source junk data ops = .error e := by
  obtain ⟨e, hinit⟩ := init_of_noHeader h
  refine ⟨e, fun source junk ops => ?_⟩
  obtain ⟨p, hp⟩ := hinit source junk
  rw [session, hp]

/-- A parser whose blocks all fit behaves in the same way on memory and on a file. -/
theorem session_eq_of_blocksFit {data : List UInt8} {n : ℕ} (hheader : HasHeader data n)
    (hfits : BlocksFit data n) (junk junk' : BinaryFileParser) (ops : List BinaryOp) :
    session .memory junk data ops = session .file junk' data ops := by
  obtain ⟨version, features, hinit⟩ := init_firstBlock hheader
  have hinside := (init_of_hasHeader hheader).1
  have hobserve : ∀ {p : BinaryFileParser}, p.Sound → observe step p ops =
      observe step p.asFile ops := fun hsound =>
    observe_eq (fun p q op => step_twins op) ⟨hsound, rfl⟩ ops
  rw [session, session, hinit, hinit]
  cases hfirst : headerAt data n with
  | missing =>
      have hcomplete : ∀ type, headerAt data n ≠ .cut type := by rw [hfirst]; exact fun _ => nofun
      have hsound : Sound ⟨.memory, data, n, version, features, n, ⟨binaryBlockNone, 0, 0⟩⟩ :=
        ⟨rfl, hinside, hinside, hfits, hcomplete, fun hvalid => absurd rfl hvalid⟩
      exact congrArg (fun observed => Except.ok (_, observed)) (hobserve hsound)
  | cut type => rfl
  | complete type length =>
      have hcomplete : ∀ type, headerAt data n ≠ .cut type := by rw [hfirst]; exact fun _ => nofun
      have hsound : Sound ⟨.memory, data, n + 3, version, features, n, ⟨type, length, n + 3⟩⟩ :=
        ⟨rfl, headerAt_complete hfirst, hinside, hfits, hcomplete, hfits.next hfirst⟩
      exact congrArg (fun observed => Except.ok (_, observed)) (hobserve hsound)

/-- **A parser on memory and a parser on a file cannot be told apart exactly if all blocks
fit.** -/
theorem sessions_eq_iff (data : List UInt8) (junk junk' : BinaryFileParser) :
    (∀ ops, session .memory junk data ops = session .file junk' data ops) ↔
      ∀ n, HasHeader data n → BlocksFit data n := by
  constructor
  · intro heq n hheader
    by_contra hfits
    obtain ⟨version, features, hinit⟩ := init_firstBlock hheader
    cases hfirst : headerAt data n with
    | missing => exact hfits (.missing hfirst)
    | cut type => exact hfits (.cut hfirst)
    | complete type length =>
        rw [hfirst] at hinit
        let p : BinaryFileParser :=
          ⟨.memory, data, n + 3, version, features, n, ⟨type, length, n + 3⟩⟩
        have hahead : ¬ p.FitsAhead := fun hahead => hfits (.of_next hfirst hahead)
        obtain ⟨ops, hne⟩ := exists_observe_ne rfl hahead
        have hsession := heq ops
        rw [session, session, hinit, hinit] at hsession
        injection hsession with hpair
        exact hne (Prod.mk.inj hpair).2
  · intro hfits ops
    by_cases hheader : ∃ n, HasHeader data n
    · obtain ⟨n, hheader⟩ := hheader
      exact session_eq_of_blocksFit hheader (hfits n hheader) junk junk' ops
    · obtain ⟨e, hsession⟩ := session_of_noHeader (not_exists.1 hheader)
      rw [hsession, hsession]

/-- A file of version 1 with a trajectory block of five bytes, of which one is there: behind
the block, the parser on memory fails, and the parser on the file has reached its end. -/
theorem cutBody_sessions_ne :
    ¬ ∀ (data : List UInt8) (junk junk' : BinaryFileParser) (ops : List BinaryOp),
      session .memory junk data ops = session .file junk' data ops := by
  intro heq
  let junk : BinaryFileParser := ⟨.memory, [], 0, 0, 0, 0, ⟨0, 0, 0⟩⟩
  have hmemory : session .memory junk [115, 107, 121, 98, 1, 1, 5, 0, 7] [.seekToNextBlock] =
      .ok (⟨1, 5, 8⟩, [⟨.error .eread, ⟨1, 5, 8⟩⟩]) := rfl
  have hfile : session .file junk [115, 107, 121, 98, 1, 1, 5, 0, 7] [.seekToNextBlock] =
      .ok (⟨1, 5, 8⟩, [⟨.ok [], ⟨0, 0, 0⟩⟩]) := rfl
  have hsession := heq [115, 107, 121, 98, 1, 1, 5, 0, 7] junk junk [.seekToNextBlock]
  rw [hmemory, hfile] at hsession
  injection hsession with hpair
  injection (Prod.mk.inj hpair).2 with hobservation
  injection hobservation with hresult
  cases hresult

end Skybrush
