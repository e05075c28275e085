import Skybrush.RthLayout

/-!
# Reads of Return-to-Home Plans

The variable-length numbers of a plan and its number of entries are read only if they are
inside the buffer; when a number is cut, the plan is declined. Nothing else is checked: not the
header, not the points, not the flags of an entry, not the altitude and the neck of an
action. So a plan is read outside its buffer exactly when the buffer ends inside one of these
and its turn comes.

Whose turn comes is said on the bytes (`RthPlan.NextEntry`): an entry is passed when the bytes
hold all its fields and its time is before the one that was asked for.

## Main results

* `RthPlan.parseEntries_endsInside`: the outcome of the entries is that of the field in
  which the buffer ends.
* `RthPlan.safe_parseEntries`: no entry is read outside the buffer if it ends in no field that
  is not checked.
* `rth_safe_iff`: all reads of a plan are inside the buffer, and what is cut is declined,
  exactly when the header and the point that is asked for are there and the buffer does not end
  in the flags, the altitude or the neck of an entry that is reached.
-/

namespace Skybrush

open Checked Base128 Relation

namespace RthPlan

/-! ### Entries on the bytes -/

/-- A place between two entries of a plan: how many of them are left, the action in
force, the time of the entry before and the bytes that are left. -/
structure Place where
  left : ℕ
  action : RthAction
  timeS : ℕ
  bytes : List UInt8
  deriving DecidableEq, Repr

/-- From one entry to the next: the bytes hold all its fields, and it is before the time that
was asked for. -/
inductive NextEntry (F : Rounding) (time : TimeSec) : Place → Place → Prop
  | intro {left timeS : ℕ} {action : RthAction} {flags : UInt8} {seconds params rest : List UInt8}
      (hseconds : (timeField timeS).Holds seconds)
      (hparams : HoldsAll (entryFields action flags) params)
      (hbefore : time.isAtMost (F (timeS + value seconds : ℕ)) = false) :
      NextEntry F time ⟨left + 1, action, timeS, flags :: (seconds ++ (params ++ rest))⟩
        ⟨left, actionBehind action flags, timeS + value seconds, rest⟩

/-- The bytes end inside a field of the next entry. -/
inductive EndsInside (field : Field) : Place → Prop
  | flags {left timeS : ℕ} {action : RthAction} (hfield : field = .raw 1) :
      EndsInside field ⟨left + 1, action, timeS, []⟩
  | behindFlags {left timeS : ℕ} {action : RthAction} {flags : UInt8} {bytes : List UInt8}
      (hcut : StopsAt field .cut (timeField timeS :: entryFields action flags) bytes) :
      EndsInside field ⟨left + 1, action, timeS, flags :: bytes⟩

/-- From a place on, the bytes end inside a field of an entry that is reached. -/
def CutIn (F : Rounding) (time : TimeSec) (field : Field) (place : Place) : Prop :=
  ∃ place', ReflTransGen (NextEntry F time) place place' ∧ EndsInside field place'

section Entries

variable {F : Rounding} {scale : ℕ} {time : TimeSec} {s : EntryState}

/-- The loop does one entry and, if it is before the given time, the others. -/
theorem parseEntries_succ (left : ℕ) :
    parseEntries F scale time (left + 1) s = parseEntry F scale s >>= fun s =>
      if time.isAtMost (F s.timeS) then pure s else parseEntries F scale time left s := rfl

/-- An entry before the given time is passed. -/
theorem parseEntries_of_next {left : ℕ} {flags : UInt8} {seconds params : List UInt8}
    (htime : s.timeS < 2 ^ 32) (hseconds : (timeField s.timeS).Holds seconds)
    (hparams : HoldsAll (entryFields s.entry.action flags) params) (before after : List UInt8) :
    ∃ s', s'.timeS = s.timeS + value seconds ∧ s'.timeS < 2 ^ 32 ∧
      s'.entry.action = actionBehind s.entry.action flags ∧
      parseEntries F scale time (left + 1) s (before ++ flags :: (seconds ++ (params ++ after)))
          before.length =
        if time.isAtMost (F s'.timeS) then
          ok (s', (before ++ flags :: (seconds ++ params)).length)
        else
          parseEntries F scale time left s' ((before ++ flags :: (seconds ++ params)) ++ after)
            (before ++ flags :: (seconds ++ params)).length := by
  obtain ⟨s', hs', haction, hentry⟩ :=
    @parseEntry_holds F scale s flags seconds params htime hseconds hparams before after
  have hvalue : value seconds < 2 ^ 32 - s.timeS := hseconds.2.2
  have hbytes : before ++ flags :: (seconds ++ (params ++ after)) =
      (before ++ flags :: (seconds ++ params)) ++ after := by
    simp only [List.append_assoc, List.cons_append]
  refine ⟨s', hs', by omega, haction, ?_⟩
  rw [parseEntries_succ, Parser.bind_apply, hentry, ok_bind, hbytes]
  split
  · rfl
  · rfl

/-- **The field in which the buffer ends** decides the outcome, if its entry is reached: by
induction on how many entries are left. -/
theorem parseEntries_endsInside {field : Field} {left : ℕ} {bytes : List UInt8}
    (htime : s.timeS < 2 ^ 32) (h : CutIn F time field ⟨left, s.entry.action, s.timeS, bytes⟩)
    (before : List UInt8) :
    parseEntries F scale time left s (before ++ bytes) before.length = field.outcome .cut := by
  obtain ⟨place, hreach, hends⟩ := h
  induction left generalizing s before bytes with
  | zero =>
      rcases hreach.cases_head with rfl | ⟨_, hstep, -⟩
      · cases hends
      · cases hstep
  | succ left ih =>
      rcases hreach.cases_head with rfl | ⟨next, hstep, hrest⟩
      · rw [parseEntries_succ, Parser.bind_apply]
        cases hends with
        | flags hfield =>
            subst hfield
            rw [parseEntry_nil]
            rfl
        | behindFlags hcut => rw [parseEntry_stops htime hcut, outcome_bind]
      · cases hstep with
        | intro hseconds hparams hbefore =>
            obtain ⟨s', hs', hlt, haction, hloop⟩ :=
              @parseEntries_of_next F scale time s left _ _ _ htime hseconds hparams before _
            rw [hloop, hs', hbefore, if_neg Bool.false_ne_true]
            rw [← haction, ← hs'] at hrest
            exact ih hlt _ hrest

/-- A field that is too large is a number. -/
theorem StopsAt.outcome_tooLarge {α : Type} {field : Field} {fields : List Field}
    {bytes : List UInt8} (h : StopsAt field .tooLarge fields bytes) :
    (field.outcome .tooLarge : Checked SbError α) = error .eoverflow := by
  induction h with
  | @here fields bytes hstops =>
      cases field with
      | raw count => exact hstops.elim
      | number limit => rfl
  | behind _ _ ih => exact ih

/-- **No entry is read outside the buffer** if it does not end inside a field that is not
checked: by induction on how many entries are left. -/
theorem safe_parseEntries {left : ℕ} {bytes : List UInt8} (htime : s.timeS < 2 ^ 32)
    (h : ∀ count, ¬ CutIn F time (.raw count) ⟨left, s.entry.action, s.timeS, bytes⟩)
    (before : List UInt8) :
    (parseEntries F scale time left s (before ++ bytes) before.length).Safe := by
  induction left generalizing s before bytes with
  | zero => exact safe_ok _
  | succ left ih =>
      cases bytes with
      | nil => exact absurd ⟨_, .refl, .flags rfl⟩ (h 1)
      | cons flags bytes =>
          rcases holdsAll_or_stopsAt (timeField s.timeS :: entryFields s.entry.action flags) bytes
            with ⟨bs, after, rfl, hholds⟩ | ⟨field, stop, hstops⟩
          · cases hholds with
            | @cons _ _ seconds params hseconds hparams =>
                obtain ⟨s', hs', hlt, haction, hloop⟩ :=
                  @parseEntries_of_next F scale time s left _ _ _ htime hseconds hparams before
                    after
                rw [List.append_assoc, hloop]
                split
                case isTrue => exact safe_ok _
                case isFalse hbefore =>
                  refine ih hlt (fun count => ?_) _
                  rintro ⟨place, hreach, hends⟩
                  rw [hs', haction] at hreach
                  rw [Bool.not_eq_true, hs'] at hbefore
                  refine h count ⟨place, .head ?_ hreach, hends⟩
                  rw [List.append_assoc]
                  exact .intro hseconds hparams hbefore
          · rw [parseEntries_succ, Parser.bind_apply, parseEntry_stops htime hstops, outcome_bind]
            cases stop with
            | cut =>
                cases field with
                | raw count => exact absurd ⟨_, .refl, .behindFlags hstops⟩ (h count)
                | number limit => exact safe_error _
            | tooLarge =>
                rw [hstops.outcome_tooLarge]
                exact safe_error _

end Entries

/-! ### The bytes of a plan -/

/-- The bytes of a plan up to its entries: the header with the scale and the number of points,
the points, and the number of entries. -/
inductive HasEntries : List UInt8 → ℕ → List UInt8 → Prop
  | intro {scale low high entriesLow entriesHigh : UInt8} {points entries : List UInt8}
      (hpoints : points.length = (low.toNat + high.toNat * 256) * 4) :
      HasEntries (scale :: low :: high :: (points ++ entriesLow :: entriesHigh :: entries))
        (entriesLow.toNat + entriesHigh.toNat * 256) entries

/-- The header declares a point, but the bytes end before or inside it. -/
inductive PointCut (index : ℕ) : List UInt8 → Prop
  | intro {scale low high : UInt8} {rest : List UInt8}
      (hindex : index < low.toNat + high.toNat * 256) (hcut : rest.length < index * 4 + 4) :
      PointCut index (scale :: low :: high :: rest)

/-- The bytes end inside a field of an entry that is reached for a time. Before time zero no
entry is. -/
def EntryCut (F : Rounding) (time : TimeSec) (field : Field) (buf : List UInt8) : Prop :=
  time.isBefore 0 = false ∧ ∃ numEntries entries, HasEntries buf numEntries entries ∧
    CutIn F time field ⟨numEntries, .land, 0, entries⟩

/-- The plan of bytes that have a header. -/
def ofHeader (scale low high : UInt8) (rest : List UInt8) : RthPlan where
  buffer := scale :: low :: high :: rest
  scale := (scale &&& 0x7F).toNat
  headerLength := 3
  numPoints := low.toNat + high.toNat * 256

/-- A plan is loaded exactly when it has its header. -/
theorem initFromBuffer_ofHeader (scale low high : UInt8) (rest : List UInt8) :
    initFromBuffer (scale :: low :: high :: rest) = ok (ofHeader scale low high rest) := by
  have hheader : parseHeader.Reads [scale, low, high]
      ((scale &&& 0x7F).toNat, low.toNat + high.toNat * 256) :=
    (Parser.reads_cell scale).bind (reads_parseUint16_bytes low high).bind_pure
  have hread := hheader [] rest
  rw [initFromBuffer]
  exact congrArg (· >>= _) hread

theorem initFromBuffer_of_lt {buf : List UInt8} (h : buf.length < 3) :
    initFromBuffer buf = fault := by
  have hheader : parseHeader.Needs 3 := Parser.needs_cell.bind fun _ => needs_parseUint16.bind_pure
  rw [initFromBuffer, (hheader buf 0 (Nat.zero_le _)).2 (by omega)]
  rfl

section Calls

variable {F : Rounding} {scale low high : UInt8} {rest : List UInt8}

/-- **The number of entries** is read behind all points. -/
theorem getNumEntries_of_hasEntries {plan : RthPlan} {buf entries : List UInt8} {numEntries : ℕ}
    (h : HasEntries buf numEntries entries) (hplan : initFromBuffer buf = ok plan) :
    plan.getNumEntries = ok numEntries ∧ ∃ before, plan.buffer = before ++ entries ∧
      plan.offsetOfFirstEntry = before.length := by
  cases h with
  | @intro scale low high entriesLow entriesHigh points entries hpoints =>
      rw [initFromBuffer_ofHeader, Checked.ok.injEq] at hplan
      subst hplan
      have hread := reads_parseUint16_bytes entriesLow entriesHigh (scale :: low :: high :: points)
        entries
      have htable : (ofHeader scale low high
          (points ++ entriesLow :: entriesHigh :: entries)).offsetOfEntryTable =
            (scale :: low :: high :: points).length := by
        simp only [offsetOfEntryTable, offsetOfPoint, ofHeader, List.length_cons, hpoints]
        omega
      have hbefore : (scale :: low :: high :: points).length + 2 =
          (scale :: low :: high :: (points ++ [entriesLow, entriesHigh])).length := by
        simp only [List.length_cons, List.length_append, List.length_nil]
      have hbuf : scale :: low :: high :: (points ++ entriesLow :: entriesHigh :: entries) =
          (scale :: low :: high :: (points ++ [entriesLow, entriesHigh])) ++ entries := by
        simp only [List.cons_append, List.append_assoc, List.nil_append]
      refine ⟨?_, _, hbuf, ?_⟩
      · rw [getNumEntries, htable, if_pos]
        · exact (congrArg (· >>= _) hread)
        · rw [hbefore]
          simp only [ofHeader, hbuf, List.length_append]
          omega
      · rw [offsetOfFirstEntry, htable, hbefore]

/-- Without the number of entries there are none. -/
theorem getNumEntries_of_not {plan : RthPlan}
    (h : ¬ ∃ numEntries entries, HasEntries (scale :: low :: high :: rest) numEntries entries)
    (hplan : plan = ofHeader scale low high rest) : plan.getNumEntries = ok 0 := by
  subst hplan
  rw [getNumEntries, if_neg]
  intro hlength
  simp only [offsetOfEntryTable, offsetOfPoint, ofHeader, List.length_cons] at hlength
  obtain ⟨entriesLow, entriesHigh, entries, hentries⟩ : ∃ entriesLow entriesHigh entries,
      rest.drop ((low.toNat + high.toNat * 256) * 4) = entriesLow :: entriesHigh :: entries := by
    match hdrop : rest.drop ((low.toNat + high.toNat * 256) * 4) with
    | entriesLow :: entriesHigh :: entries => exact ⟨entriesLow, entriesHigh, entries, rfl⟩
    | [] | [_] =>
        have hleft := congrArg List.length hdrop
        simp only [List.length_drop, List.length_cons, List.length_nil] at hleft
        omega
  have hpoints := List.length_take_of_le (l := rest) (show
    (low.toNat + high.toNat * 256) * 4 ≤ rest.length by omega)
  have hrest := List.take_append_drop ((low.toNat + high.toNat * 256) * 4) rest
  rw [hentries] at hrest
  rw [← hrest] at h
  exact h ⟨_, _, .intro hpoints⟩

/-- A point is read inside the buffer exactly when its four bytes are there. -/
theorem safe_getPoint_iff (index : ℕ) :
    ((ofHeader scale low high rest).getPoint F index).Safe ↔
      ¬ PointCut index (scale :: low :: high :: rest) := by
  have hneeds : (parsePoint F (scale &&& 0x7F).toNat).Needs 4 :=
    (needs_parseCoordinate F _).bind fun _ => (needs_parseCoordinate F _).bind_pure
  rw [getPoint]
  split
  case isTrue hle =>
    refine iff_of_true (safe_error _) fun hcut => ?_
    cases hcut with
    | intro hindex _ => exact absurd hindex (not_lt.mpr hle)
  case isFalse hlt =>
    rw [not_le] at hlt
    rcases Nat.lt_or_ge rest.length (index * 4 + 4) with hcut | hin
    · refine iff_of_false ?_ fun h => h (.intro hlt hcut)
      have hfault : parsePoint F (scale &&& 0x7F).toNat (scale :: low :: high :: rest)
          (3 + index * 4) = fault := by
        rcases Nat.lt_or_ge (rest.length + 3) (3 + index * 4) with hbehind | hle
        · have hint : parseInt16 (scale :: low :: high :: rest) (3 + index * 4) = fault :=
            parseInt16_of_gt (by
              simp only [List.length_cons]
              omega)
          simp only [parsePoint, parseCoordinate, Parser.bind_apply, hint, fault_bind]
        · exact (hneeds _ _ (by simpa using hle)).2 (by
            simp only [List.length_cons]
            omega)
      have hpoint : parsePoint F (ofHeader scale low high rest).scale
          (ofHeader scale low high rest).buffer
          ((ofHeader scale low high rest).offsetOfPoint index) = fault := hfault
      rw [hpoint]
      exact not_safe_fault
    · have hlength : 3 + index * 4 + 4 ≤ (scale :: low :: high :: rest).length := by
        simp only [List.length_cons]
        omega
      obtain ⟨point, hpoint⟩ := (hneeds _ _ (by omega)).1 hlength
      have hread : parsePoint F (ofHeader scale low high rest).scale
          (ofHeader scale low high rest).buffer
          ((ofHeader scale low high rest).offsetOfPoint index) = ok (point, 3 + index * 4 + 4) :=
        hpoint
      rw [hread]
      refine iff_of_true (safe_ok _) fun h => ?_
      cases h with
      | intro _ hcut => omega

/-- The bytes of a plan that was loaded begin with a header. -/
theorem exists_ofHeader {plan : RthPlan} {buf : List UInt8} (h : initFromBuffer buf = ok plan) :
    ∃ scale low high rest, buf = scale :: low :: high :: rest ∧
      plan = ofHeader scale low high rest := by
  match buf with
  | scale :: low :: high :: rest =>
      rw [initFromBuffer_ofHeader, Checked.ok.injEq] at h
      exact ⟨scale, low, high, rest, rfl, h.symm⟩
  | [] | [_] | [_, _] =>
      rw [initFromBuffer_of_lt (by simp)] at h
      cases h

variable {time : TimeSec} {plan : RthPlan} {buf : List UInt8}

/-- Evaluation parses the entries and then gets the target of the last one. -/
theorem evaluateAt_eq {numEntries : ℕ} (hnum : plan.getNumEntries = ok numEntries) :
    plan.evaluateAt F time =
      parseEntries F plan.scale time (if time.isBefore 0 then 0 else numEntries) (.initial time)
        plan.buffer plan.offsetOfFirstEntry >>= fun r => plan.targetOf F r.1 >>= fun target =>
          ok { r.1.entry with target := target } := by
  rw [evaluateAt, hnum]
  rfl

/-- Without entries the answer is to land. -/
theorem safe_evaluateAt_none {numEntries : ℕ} (hnum : plan.getNumEntries = ok numEntries)
    (hnone : (if time.isBefore 0 then 0 else numEntries) = 0) : (plan.evaluateAt F time).Safe := by
  rw [evaluateAt_eq hnum, hnone]
  exact safe_ok _

/-- **A plan that ends inside an entry** that is reached has the outcome of the field in which
it ends. -/
theorem evaluateAt_of_entryCut {field : Field} (h : EntryCut F time field buf)
    (hplan : initFromBuffer buf = ok plan) : plan.evaluateAt F time = field.outcome .cut := by
  obtain ⟨htime, numEntries, entries, hentries, hcut⟩ := h
  obtain ⟨hnum, before, hbuffer, hoffset⟩ := getNumEntries_of_hasEntries hentries hplan
  have hparse := @parseEntries_endsInside F plan.scale time (.initial time) _ _ _
    (Nat.two_pow_pos 32) hcut before
  rw [evaluateAt_eq hnum, htime, if_neg Bool.false_ne_true, hbuffer, hoffset, hparse, outcome_bind]

/-- **Evaluation** reads inside the buffer if no entry that is reached ends inside a field that
is not checked. The points are in front of the entries, so the target is there if an
entry is. -/
theorem safe_evaluateAt (h : ∀ count, ¬ EntryCut F time (.raw count) buf)
    (hplan : initFromBuffer buf = ok plan) : (plan.evaluateAt F time).Safe := by
  obtain ⟨scale, low, high, rest, rfl, rfl⟩ := exists_ofHeader hplan
  by_cases hhas : ∃ numEntries entries,
      HasEntries (scale :: low :: high :: rest) numEntries entries
  · obtain ⟨numEntries, entries, hentries⟩ := hhas
    obtain ⟨hnum, before, hbuffer, hoffset⟩ := getNumEntries_of_hasEntries hentries hplan
    cases htime : time.isBefore 0 with
    | true => exact safe_evaluateAt_none hnum (by rw [htime, if_pos rfl])
    | false =>
        rw [evaluateAt_eq hnum, htime, if_neg Bool.false_ne_true, hbuffer, hoffset, safe_bind]
        refine ⟨safe_parseEntries (Nat.two_pow_pos 32) (fun count hcut =>
          h count ⟨htime, numEntries, entries, hentries, hcut⟩) before, fun r _ => ?_⟩
        rw [safe_bind]
        refine ⟨?_, fun _ _ => safe_ok _⟩
        rw [targetOf]
        split
        case isTrue =>
          rw [safe_getPoint_iff]
          intro hcut
          cases hcut with
          | intro hindex hcut =>
              have hlength := congrArg List.length hbuffer
              rw [List.length_append, ← hoffset] at hlength
              simp only [ofHeader, offsetOfFirstEntry, offsetOfEntryTable, offsetOfPoint,
                List.length_cons] at hlength
              omega
        case isFalse => exact safe_ok _
  · exact safe_evaluateAt_none (getNumEntries_of_not hhas rfl) (by split <;> rfl)

end Calls

end RthPlan

open RthPlan

/-- What is promised for a plan: to load it and to call its three functions does not read outside
the buffer, and what is not there is an error, or no entries. -/
structure RthSafe (F : Rounding) (buf : List UInt8) (index : ℕ) (time : TimeSec) : Prop where
  load : (initFromBuffer buf).Safe
  load_cut : buf.length < 3 → ∃ e, initFromBuffer buf = error e
  getNumEntries : ∀ plan, initFromBuffer buf = ok plan → plan.getNumEntries.Safe
  getNumEntries_cut : ∀ plan, initFromBuffer buf = ok plan →
    (¬ ∃ numEntries entries, HasEntries buf numEntries entries) → plan.getNumEntries = ok 0
  getPoint : ∀ plan, initFromBuffer buf = ok plan → (plan.getPoint F index).Safe
  getPoint_cut : ∀ plan, initFromBuffer buf = ok plan → PointCut index buf →
    ∃ e, plan.getPoint F index = error e
  evaluateAt : ∀ plan, initFromBuffer buf = ok plan → (plan.evaluateAt F time).Safe
  evaluateAt_cut : ∀ plan, initFromBuffer buf = ok plan → ∀ field, EntryCut F time field buf →
    ∃ e, plan.evaluateAt F time = error e

/-- What is not checked is there: the header, the point of an index, and the flags, the altitude
and the neck of the entries that are reached for a time. -/
structure RthFits (F : Rounding) (buf : List UInt8) (index : ℕ) (time : TimeSec) : Prop where
  header : 3 ≤ buf.length
  point : ¬ PointCut index buf
  entries : ∀ count, ¬ EntryCut F time (.raw count) buf

/-- **No read is outside the buffer, and what is cut is declined**, exactly when what is not
checked fits: for all bytes, every index and every time. -/
theorem rth_safe_iff (F : Rounding) (buf : List UInt8) (index : ℕ) (time : TimeSec) :
    RthSafe F buf index time ↔ RthFits F buf index time := by
  constructor
  · intro h
    have hlength : 3 ≤ buf.length := by
      by_contra hlt
      exact not_safe_fault (initFromBuffer_of_lt (not_le.mp hlt) ▸ h.load)
    obtain ⟨scale, low, high, rest, rfl⟩ : ∃ scale low high rest,
        buf = scale :: low :: high :: rest := by
      match buf, hlength with
      | scale :: low :: high :: rest, _ => exact ⟨scale, low, high, rest, rfl⟩
    have hplan := initFromBuffer_ofHeader scale low high rest
    refine ⟨hlength, (safe_getPoint_iff index).mp (h.getPoint _ hplan), fun count hcut => ?_⟩
    have hsafe := h.evaluateAt _ hplan
    rw [evaluateAt_of_entryCut hcut hplan] at hsafe
    exact not_safe_fault hsafe
  · intro h
    refine
      { load := ?_
        load_cut := fun hlt => absurd h.header (not_le.mpr hlt)
        getNumEntries := fun plan hplan => ?_
        getNumEntries_cut := fun plan hplan hnone => ?_
        getPoint := fun plan hplan => ?_
        getPoint_cut := fun _ _ hcut => absurd hcut h.point
        evaluateAt := fun _ hplan => safe_evaluateAt h.entries hplan
        evaluateAt_cut := fun plan hplan field hcut => ?_ }
    · match buf, h.header with
      | scale :: low :: high :: rest, _ =>
          rw [initFromBuffer_ofHeader]
          exact safe_ok _
    · obtain ⟨scale, low, high, rest, rfl, rfl⟩ := exists_ofHeader hplan
      by_cases hhas : ∃ numEntries entries,
          HasEntries (scale :: low :: high :: rest) numEntries entries
      · obtain ⟨numEntries, entries, hentries⟩ := hhas
        rw [(getNumEntries_of_hasEntries hentries hplan).1]
        exact safe_ok _
      · rw [getNumEntries_of_not hhas rfl]
        exact safe_ok _
    · obtain ⟨scale, low, high, rest, rfl, hofHeader⟩ := exists_ofHeader hplan
      exact getNumEntries_of_not hnone hofHeader
    · obtain ⟨scale, low, high, rest, rfl, rfl⟩ := exists_ofHeader hplan
      exact (safe_getPoint_iff index).mpr h.point
    · rw [evaluateAt_of_entryCut hcut hplan]
      cases field with
      | raw count => exact absurd hcut (h.entries count)
      | number limit => exact ⟨_, rfl⟩

/-- A plan without points that has one entry according to its header, and ends there: to
evaluate it at time zero reads behind the end. -/
theorem missing_entry_reads_outside :
    ¬ ∀ (F : Rounding) (buf : List UInt8) (index : ℕ) (time : TimeSec),
      RthSafe F buf index time := by
  intro h
  have hfault : evaluateAt .exact ⟨[1, 0, 0, 1, 0], 1, 3, 0⟩ (.finite 0) = fault := by
    decide +kernel
  exact (h .exact [1, 0, 0, 1, 0] 0 (.finite 0)).evaluateAt _ rfl hfault

end Skybrush
