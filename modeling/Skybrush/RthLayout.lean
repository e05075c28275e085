import Mathlib.Logic.Relation
import Skybrush.RthPlan

/-!
# The Layout of Return-to-Home Plans

What the bytes of a plan mean, and where they may end too early, without reading them
one by one. An entry is a byte with its flags and then a list of fields, of which the flags
and the action in force decide: variable-length numbers with their limits, and fields with a fixed
number of bytes. Bytes that are meant for fields hold all of them, or they stop at one of them:
they end inside the field, or it is a number that is too large.

## Main results

* `RthPlan.holdsAll_or_stopsAt`: bytes hold all fields or stop at one of them.
* `RthPlan.Lays.bind`: what a parser makes of its fields composes along its sequencing.
* `RthPlan.parseEntry_holds`, `RthPlan.parseEntry_stops`: the body of the loop of
  `sb_rth_plan_evaluate_at` over a whole entry, and over one that stops at a field.
-/

namespace Skybrush

open Checked Base128

namespace RthPlan

/-! ### Fields -/

/-- A field of an entry: a number of bytes that are read without a check, or a variable-length
number below a limit. -/
inductive Field where
  | raw (count : ℕ)
  | number (limit : ℕ)
  deriving DecidableEq, Repr

/-- Why bytes do not hold a field: they end inside it, or the number is too large. -/
inductive Stop where
  | cut
  | tooLarge
  deriving DecidableEq, Repr

namespace Field

/-- The bytes are those of the field. -/
def Holds : Field → List UInt8 → Prop
  | raw count, bytes => bytes.length = count
  | number limit, bytes => Complete bytes ∧ bytes.length ≤ 5 ∧ value bytes < limit

/-- The bytes do not begin with the field. A number that is cut continues in every byte that is
left. -/
def Stops : Field → Stop → List UInt8 → Prop
  | raw count, .cut, bytes => bytes.length < count
  | raw _, .tooLarge, _ => False
  | number _, .cut, bytes => ∀ b ∈ bytes, continues b = true
  | number limit, .tooLarge, bytes => ∃ bs after, bytes = bs ++ after ∧ Complete bs ∧
      ¬ (bs.length ≤ 5 ∧ value bs < limit)

/-- What comes of a field that bytes do not hold: only numbers are checked. -/
def outcome {α : Type} : Field → Stop → Checked SbError α
  | raw _, _ => fault
  | number _, .cut => error .eparse
  | number _, .tooLarge => error .eoverflow

/-- Bytes begin with a field, or they do not for one of the two reasons. -/
theorem holds_or_stops (field : Field) (bytes : List UInt8) :
    (∃ bs after, bytes = bs ++ after ∧ field.Holds bs) ∨ ∃ stop, field.Stops stop bytes := by
  cases field with
  | raw count =>
      rcases Nat.lt_or_ge bytes.length count with hlt | hge
      · exact .inr ⟨.cut, hlt⟩
      · exact .inl ⟨bytes.take count, bytes.drop count, (List.take_append_drop _ _).symm,
          List.length_take_of_le hge⟩
  | number limit =>
      rcases complete_or_cut bytes with ⟨bs, after, hbytes, hbs⟩ | hcut
      · by_cases hfits : bs.length ≤ 5 ∧ value bs < limit
        · exact .inl ⟨bs, after, hbytes, hbs, hfits⟩
        · exact .inr ⟨.tooLarge, bs, after, hbytes, hbs, hfits⟩
      · exact .inr ⟨.cut, hcut⟩

end Field

/-- The bytes are those of the fields, one behind the other. -/
inductive HoldsAll : List Field → List UInt8 → Prop
  | nil : HoldsAll [] []
  | cons {field : Field} {fields : List Field} {bs bytes : List UInt8} (hfield : field.Holds bs)
      (hfields : HoldsAll fields bytes) : HoldsAll (field :: fields) (bs ++ bytes)

/-- The bytes begin with some of the fields and stop at the next one. -/
inductive StopsAt (field : Field) (stop : Stop) : List Field → List UInt8 → Prop
  | here {fields : List Field} {bytes : List UInt8} (hstops : field.Stops stop bytes) :
      StopsAt field stop (field :: fields) bytes
  | behind {field' : Field} {fields : List Field} {bs bytes : List UInt8}
      (hfield : field'.Holds bs) (hfields : StopsAt field stop fields bytes) :
      StopsAt field stop (field' :: fields) (bs ++ bytes)

/-- Bytes begin with all fields, or they stop at one of them. -/
theorem holdsAll_or_stopsAt (fields : List Field) (bytes : List UInt8) :
    (∃ bs after, bytes = bs ++ after ∧ HoldsAll fields bs) ∨
      ∃ field stop, StopsAt field stop fields bytes := by
  induction fields generalizing bytes with
  | nil => exact .inl ⟨[], bytes, rfl, .nil⟩
  | cons field fields ih =>
      rcases field.holds_or_stops bytes with ⟨bs, rest, rfl, hfield⟩ | ⟨stop, hstops⟩
      · rcases ih rest with ⟨bs', after, rfl, hfields⟩ | ⟨field', stop, hstops⟩
        · exact .inl ⟨bs ++ bs', after, (List.append_assoc _ _ _).symm, .cons hfield hfields⟩
        · exact .inr ⟨field', stop, .behind hfield hstops⟩
      · exact .inr ⟨field, stop, .here hstops⟩

/-- Bytes of two lists of fields are those of the first and those of the second. -/
theorem HoldsAll.exists_of_append {fields fields' : List Field} {bytes : List UInt8}
    (h : HoldsAll (fields ++ fields') bytes) :
    ∃ bs bs', bytes = bs ++ bs' ∧ HoldsAll fields bs ∧ HoldsAll fields' bs' := by
  induction fields generalizing bytes with
  | nil => exact ⟨[], bytes, rfl, .nil, h⟩
  | cons field fields ih =>
      cases h with
      | @cons _ _ bs bytes hfield hfields =>
          obtain ⟨bs', bs'', rfl, hfirst, hsecond⟩ := ih hfields
          exact ⟨bs ++ bs', bs'', (List.append_assoc _ _ _).symm, .cons hfield hfirst, hsecond⟩

/-- Bytes stop in the first of two lists of fields, or in the second one behind the first. -/
theorem StopsAt.cases_append {field : Field} {stop : Stop} {fields fields' : List Field}
    {bytes : List UInt8} (h : StopsAt field stop (fields ++ fields') bytes) :
    StopsAt field stop fields bytes ∨
      ∃ bs rest, bytes = bs ++ rest ∧ HoldsAll fields bs ∧ StopsAt field stop fields' rest := by
  induction fields generalizing bytes with
  | nil => exact .inr ⟨[], bytes, rfl, .nil, h⟩
  | cons field' fields ih =>
      cases h with
      | here hstops => exact .inl (.here hstops)
      | @behind _ _ bs bytes hfield hfields =>
          rcases ih hfields with hfirst | ⟨bs', rest, rfl, hfirst, hsecond⟩
          · exact .inl (.behind hfield hfirst)
          · exact .inr ⟨bs ++ bs', rest, (List.append_assoc _ _ _).symm, .cons hfield hfirst,
              hsecond⟩

/-! ### Parsers of fields -/

/-- A parser reads these fields: wherever bytes hold all of them, it succeeds and goes on
behind them, and where bytes stop at one of them, the outcome is that of the field. -/
structure Lays {α : Type} (p : Parser SbError UInt8 α) (fields : List Field) : Prop where
  holds : ∀ {bs : List UInt8}, HoldsAll fields bs → ∀ before after : List UInt8,
    ∃ a, p (before ++ (bs ++ after)) before.length = ok (a, before.length + bs.length)
  stops : ∀ {bytes : List UInt8} {field : Field} {stop : Stop}, StopsAt field stop fields bytes →
    ∀ before : List UInt8, p (before ++ bytes) before.length = field.outcome stop

section Parsers

variable {α β : Type} {p : Parser SbError UInt8 α} {fields fields' : List Field}

theorem lays_pure (a : α) : Lays (pure a) [] where
  holds h _ _ := by
    cases h
    exact ⟨a, rfl⟩
  stops h := by cases h

/-- The outcome of a field that stops a parser is that of all that follows. -/
theorem outcome_bind (field : Field) (stop : Stop) (f : α → Checked SbError β) :
    (field.outcome stop >>= f) = field.outcome stop := by
  cases field <;> cases stop <;> rfl

/-- **Sequencing**: the fields of the second parser are behind those of the first, if they are
the same for all that the first may read. -/
theorem Lays.bind {k : α → Parser SbError UInt8 β} {P : α → Prop} (h : Lays p fields)
    (hp : p.Ensures P) (hk : ∀ a, P a → Lays (k a) fields') :
    Lays (p >>= k) (fields ++ fields') where
  holds := by
    intro bytes hbytes before after
    obtain ⟨bs, bs', rfl, hfirst, hsecond⟩ := hbytes.exists_of_append
    obtain ⟨a, ha⟩ := h.holds hfirst before (bs' ++ after)
    obtain ⟨b, hb⟩ := (hk a (hp _ _ _ _ ha)).holds hsecond (before ++ bs) after
    refine ⟨b, ?_⟩
    rw [List.append_assoc, List.length_append] at hb
    rw [Parser.bind_apply, List.append_assoc, ha, ok_bind, hb, List.length_append, Nat.add_assoc]
  stops := by
    intro bytes field stop hbytes before
    rcases hbytes.cases_append with hfirst | ⟨bs, rest, rfl, hfirst, hsecond⟩
    · rw [Parser.bind_apply, h.stops hfirst, outcome_bind]
    · obtain ⟨a, ha⟩ := h.holds hfirst before rest
      have hrest := (hk a (hp _ _ _ _ ha)).stops hsecond (before ++ bs)
      rw [List.append_assoc, List.length_append] at hrest
      rw [Parser.bind_apply, ha, ok_bind, hrest]

/-- The fields of the second parser do not depend on what was read. -/
theorem Lays.bind_any {k : α → Parser SbError UInt8 β} (h : Lays p fields)
    (hk : ∀ a, Lays (k a) fields') : Lays (p >>= k) (fields ++ fields') :=
  h.bind (Parser.ensures_true p) fun a _ => hk a

theorem Lays.bind_pure {f : α → β} (h : Lays p fields) :
    Lays (p >>= fun a => pure (f a)) fields := by
  have hbind := h.bind_any fun a => lays_pure (f a)
  rwa [List.append_nil] at hbind

theorem Lays.optional {condition : Prop} [Decidable condition] {default : α}
    (h : Lays p fields) :
    Lays (Parser.optional condition p default) (if condition then fields else []) := by
  rw [Parser.optional]
  split
  case isTrue => exact h
  case isFalse => exact lays_pure default

/-- A parser that needs a number of bytes reads one field. -/
theorem lays_raw {count : ℕ} (h : p.Needs count) : Lays p [.raw count] where
  holds := by
    intro bytes hbytes before after
    cases hbytes with
    | @cons _ _ bs _ hfield hnil =>
        cases hnil
        obtain ⟨a, ha⟩ := (h (before ++ (bs ++ after)) before.length
          (by rw [List.length_append]; omega)).1 (by
            have : bs.length = count := hfield
            simp only [List.length_append]
            omega)
        rw [List.append_nil, show bs.length = count from hfield]
        exact ⟨a, ha⟩
  stops := by
    intro bytes field stop hbytes before
    cases hbytes with
    | here hstops =>
        cases stop with
        | cut =>
            refine (h _ _ (by rw [List.length_append]; omega)).2 ?_
            rw [List.length_append]
            exact Nat.add_lt_add_left hstops _
        | tooLarge => exact hstops.elim
    | behind _ hnil => cases hnil

end Parsers

/-- A number is read, and declined if it is not below a limit. -/
theorem lays_number {α : Type} {limit : ℕ} (hlimit : limit ≤ 2 ^ 32) {L : ℕ → Prop}
    [DecidablePred L] (hlarge : ∀ v < 2 ^ 32, L v ↔ limit ≤ v) (f : ℕ → α) :
    Lays (parseVaruint32.check >>= fun v =>
      if L v then Parser.throw .eoverflow else pure (f v)) [.number limit] where
  holds := by
    intro bytes hbytes before after
    cases hbytes with
    | @cons _ _ bs _ hfield hnil =>
        cases hnil
        obtain ⟨hcomplete, hlength, hvalue⟩ := hfield
        have hparse := parseVaruint32_complete before after hcomplete
        rw [if_pos ⟨hlength, hvalue.trans_le hlimit⟩] at hparse
        have hsmall : ¬ L (value bs) := by
          rw [hlarge _ (hvalue.trans_le hlimit)]
          omega
        rw [List.append_nil, Parser.bind_apply, Parser.check, hparse, ok_bind, ok_bind,
          if_neg hsmall]
        exact ⟨f (value bs), rfl⟩
  stops := by
    intro bytes field stop hbytes before
    cases hbytes with
    | here hstops =>
        cases stop with
        | cut =>
            rw [Parser.bind_apply, Parser.check, parseVaruint32_cut before hstops]
            rfl
        | tooLarge =>
            obtain ⟨bs, after, rfl, hcomplete, hnot⟩ := hstops
            have hparse := parseVaruint32_complete before after hcomplete
            rw [Parser.bind_apply, Parser.check, hparse]
            split
            case isTrue hfits =>
              have hbig : L (value bs) := by
                rw [hlarge _ hfits.2]
                omega
              rw [ok_bind, ok_bind, if_pos hbig]
              rfl
            case isFalse => rfl
    | behind _ hnil => cases hnil

/-! ### The fields of an entry -/

/-- The action in force from an entry on: the one in its flags, or the one before. -/
def actionBehind (action : RthAction) (flags : UInt8) : RthAction :=
  if RthAction.ofFlags flags = .sameAsPrevious then action else RthAction.ofFlags flags

/-- A duration is at most 16777216 seconds. -/
abbrev durationField : Field := .number 16777217

/-- The parameters of an action that is written out: the index of the target, and the altitude
and the neck with its duration. -/
def parameterFields : RthAction → List Field
  | .goToKeepingAltitude => [.number (2 ^ 32)]
  | .goToWithAltitude => [.number (2 ^ 32), .raw 2, .raw 2, durationField]
  | _ => []

/-- The fields of an entry behind its time: the parameters of its action, its duration if
the action in force has a target, and its delays. -/
def entryFields (action : RthAction) (flags : UInt8) : List Field :=
  parameterFields (RthAction.ofFlags flags) ++
    ((if (actionBehind action flags).hasTarget then [durationField] else []) ++
      ((if flags &&& 0x02 ≠ 0 then [durationField] else []) ++
        (if flags &&& 0x01 ≠ 0 then [durationField] else [])))

/-- The time of an entry, in seconds behind the time of the one before. The sum has to fit into
32 bits. -/
def timeField (timeS : ℕ) : Field := .number (2 ^ 32 - timeS)

section Entries

variable {F : Rounding} {scale : ℕ} {action : RthAction} {s : EntryState}

theorem needs_parseCoordinate (F : Rounding) (scale : ℕ) : (parseCoordinate F scale).Needs 2 :=
  needs_parseInt16.bind_pure

theorem lays_index : Lays parseVaruint32.check [.number (2 ^ 32)] := by
  have hnever : ∀ v < 2 ^ 32, False ↔ 2 ^ 32 ≤ v := fun v hv => by
    rw [false_iff, not_le]
    exact hv
  have hpure : (parseVaruint32.check >>= fun v => pure v) = parseVaruint32.check := by
    funext buf offset
    rw [Parser.bind_apply]
    cases parseVaruint32.check buf offset <;> rfl
  have hnumber := lays_number le_rfl hnever id
  simp only [if_false, id] at hnumber
  rwa [hpure] at hnumber

theorem lays_parseDuration : Lays (parseDuration F) [durationField] :=
  lays_number (L := fun value => maxDuration < value) (by decide) (fun _ _ => Iff.rfl)
    fun value => F value

theorem lays_parseTime (htime : s.timeS < 2 ^ 32) : Lays (parseTime F s) [timeField s.timeS] := by
  refine lays_number (L := fun timeDiffS => (timeDiffS + s.timeS) % 2 ^ 32 < s.timeS)
    (Nat.sub_le _ _) (fun v hv => ?_) _
  omega

theorem lays_parseParameters (action : RthAction) (s : EntryState) :
    Lays (parseParameters F scale action s)
      ((if action.hasTarget then [.number (2 ^ 32)] else []) ++
        ((if action.hasTargetAltitude then [.raw 2] else []) ++
          ((if action.hasNeck then [.raw 2] else []) ++
            (if action.hasNeck then [durationField] else [])))) := by
  have hcoordinate := lays_raw (needs_parseCoordinate F scale)
  exact lays_index.optional.bind_any fun _ => hcoordinate.optional.bind_any fun _ =>
    hcoordinate.optional.bind_any fun _ => lays_parseDuration.optional.bind_pure

/-- The parameters of an action are read as its fields say. -/
theorem lays_parseAction (action : RthAction) (s : EntryState) :
    Lays (parseAction F scale action s) (parameterFields action) := by
  cases action with
  | sameAsPrevious => exact lays_pure s
  | land => exact lays_parseParameters .land s
  | goToKeepingAltitude => exact lays_parseParameters .goToKeepingAltitude s
  | goToWithAltitude => exact lays_parseParameters .goToWithAltitude s

theorem lays_parseDurations (flags : UInt8) (s : EntryState) :
    Lays (parseDurations F flags s)
      ((if s.entry.action.hasTarget then [durationField] else []) ++
        ((if flags &&& 0x02 ≠ 0 then [durationField] else []) ++
          (if flags &&& 0x01 ≠ 0 then [durationField] else []))) :=
  lays_parseDuration.optional.bind_any fun _ => lays_parseDuration.optional.bind_any fun _ =>
    lays_parseDuration.optional.bind_pure

/-- The body of the loop of `sb_rth_plan_evaluate_at` behind the flags. -/
def parseEntryTail (F : Rounding) (scale : ℕ) (flags : UInt8) (s : EntryState) :
    Parser SbError UInt8 EntryState := do
  let s ← parseTime F s
  let s ← parseAction F scale (.ofFlags flags) s
  parseDurations F flags s

theorem parseEntry_eq : parseEntry F scale s =
    Parser.cell >>= fun flags => parseEntryTail F scale flags s := rfl

theorem ensures_action_parseTime :
    (parseTime F s).Ensures fun s' => s'.entry.action = s.entry.action := by
  refine (Parser.ensures_true _).bind fun timeDiffS _ => ?_
  split
  · exact Parser.ensures_throw _ _
  · exact Parser.ensures_pure rfl

/-- Behind the parameters the action in force is the one that they belong to. -/
theorem ensures_behind_parseAction (flags : UInt8) :
    (parseAction F scale (.ofFlags flags) s).Ensures fun s' =>
      s'.timeS = s.timeS ∧ s'.entry.action = actionBehind s.entry.action flags := by
  rw [parseAction, actionBehind]
  split
  case isTrue hnew =>
    exact (Parser.ensures_true _).bind fun _ _ => (Parser.ensures_true _).bind fun _ _ =>
      (Parser.ensures_true _).bind fun _ _ => (Parser.ensures_true _).bind fun _ _ =>
        Parser.ensures_pure ⟨rfl, rfl⟩
  case isFalse hsame =>
    rw [if_pos (not_not.mp hsame)]
    exact Parser.ensures_pure ⟨rfl, rfl⟩

theorem ensures_same_parseDurations (flags : UInt8) :
    (parseDurations F flags s).Ensures fun s' =>
      s'.timeS = s.timeS ∧ s'.entry.action = s.entry.action :=
  (Parser.ensures_true _).bind fun _ _ => (Parser.ensures_true _).bind fun _ _ =>
    (Parser.ensures_true _).bind fun _ _ => Parser.ensures_pure ⟨rfl, rfl⟩

/-- **An entry is read as it is laid out**: its time, its parameters, its duration and delays. -/
theorem lays_parseEntryTail (flags : UInt8) (htime : s.timeS < 2 ^ 32) :
    Lays (parseEntryTail F scale flags s)
      (timeField s.timeS :: entryFields s.entry.action flags) := by
  refine (lays_parseTime htime).bind ensures_action_parseTime fun s' hs' => ?_
  refine (lays_parseAction _ s').bind (ensures_behind_parseAction flags) fun s'' hs'' => ?_
  rw [← hs', ← hs''.2]
  exact lays_parseDurations flags s''

/-- The time is added to the one before. -/
theorem parseTime_holds {seconds : List UInt8} (htime : s.timeS < 2 ^ 32)
    (hseconds : (timeField s.timeS).Holds seconds) :
    ∃ s', s'.timeS = s.timeS + value seconds ∧ (parseTime F s).Reads seconds s' := by
  obtain ⟨hcomplete, hlength, hvalue⟩ := hseconds
  have hsum : (value seconds + s.timeS) % 2 ^ 32 = s.timeS + value seconds := by
    rw [Nat.mod_eq_of_lt (by omega), Nat.add_comm]
  refine ⟨{ s with
      timeS := s.timeS + value seconds
      entry := { s.entry with timeSec := .finite (F ((s.timeS + value seconds : ℕ) : ℚ)) } },
    rfl, fun before after => ?_⟩
  have hparse := parseVaruint32_complete before after hcomplete
  rw [if_pos ⟨hlength, hvalue.trans_le (Nat.sub_le _ _)⟩] at hparse
  rw [parseTime, Parser.bind_apply, Parser.check, hparse]
  simp only [ok_bind, hsum]
  rw [if_neg (by omega)]
  rfl

/-- **A whole entry** is read, and the next one begins behind it. -/
theorem parseEntry_holds {flags : UInt8} {seconds params : List UInt8} (htime : s.timeS < 2 ^ 32)
    (hseconds : (timeField s.timeS).Holds seconds)
    (hparams : HoldsAll (entryFields s.entry.action flags) params) (before after : List UInt8) :
    ∃ s', s'.timeS = s.timeS + value seconds ∧
      s'.entry.action = actionBehind s.entry.action flags ∧
      parseEntry F scale s (before ++ flags :: (seconds ++ (params ++ after))) before.length =
        ok (s', (before ++ flags :: (seconds ++ params)).length) := by
  obtain ⟨s', hs', hreads⟩ := parseTime_holds (F := F) htime hseconds
  have hcell := @Parser.reads_cell SbError _ flags before (seconds ++ (params ++ after))
  have htimeAt := hreads (before ++ [flags]) (params ++ after)
  obtain ⟨s'', hs''⟩ := (@lays_parseEntryTail F scale s flags htime).holds
    (.cons hseconds hparams) (before ++ [flags]) after
  have hrest := hs''
  rw [List.append_assoc seconds, parseEntryTail, Parser.bind_apply, htimeAt, ok_bind] at hrest
  obtain ⟨⟨s₁, offset₁⟩, haction, hdurations⟩ := bind_eq_ok.mp hrest
  obtain ⟨htime₁, haction₁⟩ := ensures_behind_parseAction flags _ _ _ _ haction
  obtain ⟨htime₂, haction₂⟩ := ensures_same_parseDurations flags _ _ _ _ hdurations
  have hkept : s'.entry.action = s.entry.action := ensures_action_parseTime _ _ _ _ htimeAt
  refine ⟨s'', by rw [htime₂, htime₁, hs'], by rw [haction₂, haction₁, hkept], ?_⟩
  have hlength : (before ++ [flags]).length + (seconds ++ params).length =
      (before ++ flags :: (seconds ++ params)).length := by
    simp only [List.length_append, List.length_cons, List.length_nil]
    omega
  rw [List.append_assoc, List.append_assoc, hlength, List.length_append] at hs''
  rw [parseEntry_eq, Parser.bind_apply]
  exact (congrArg (· >>= _) hcell).trans hs''

/-- **An entry that stops** at a field has the outcome of that field. -/
theorem parseEntry_stops {flags : UInt8} {bytes : List UInt8} {field : Field} {stop : Stop}
    (htime : s.timeS < 2 ^ 32)
    (hstops : StopsAt field stop (timeField s.timeS :: entryFields s.entry.action flags) bytes)
    (before : List UInt8) :
    parseEntry F scale s (before ++ flags :: bytes) before.length = field.outcome stop := by
  have hcell := @Parser.reads_cell SbError _ flags before bytes
  have htail := (@lays_parseEntryTail F scale s flags htime).stops hstops
    (before ++ [flags])
  rw [List.append_assoc, List.length_append] at htail
  rw [parseEntry_eq, Parser.bind_apply]
  exact (congrArg (· >>= _) hcell).trans htail

/-- Without its flags an entry is read outside the buffer. -/
theorem parseEntry_nil (before : List UInt8) :
    parseEntry F scale s (before ++ []) before.length = fault := by
  rw [List.append_nil, parseEntry_eq, Parser.bind_apply, Parser.cell, read_of_ge le_rfl]
  rfl

end Entries

end RthPlan

end Skybrush
