import Skybrush.Trigger
import Skybrush.Library.Lockstep

/-!
# Edge Detection

What an edge detector is for (`edge_detector.h`): it decides whether a noisy signal is low or
high, keeps its decision while the signal is between the two, and reports the changes. After
a change, further ones are to be ignored for the debouncing interval, and normal operation is
to be resumed when it is over. `Debounced` is this machine.

The detector compares the wrong way around: it ignores the samples that come after the
debouncing interval, and processes the ones that come before its end. Samples that do not
change anything aside, the two machines agree only on those at the very end of the interval;
before the first edge, when nothing should be ignored, only on those not later than the
interval.

## Main results

* `EdgeDetector.feed_track_of_not_filters`: a sample that the detector does not filter.
* `Debounced.reports_apart`: the edges alternate, and the debouncing interval lies between them.
* `edge_detection_iff`: when the detector agrees with the machine.
-/

namespace Skybrush

/-- An edge of the signal. -/
structure Edge where
  rising : Bool
  time : ℤ
  deriving DecidableEq, Repr

namespace EdgeDetector

/-- The value of the digital signal, `none` when it is not known yet: `EdgeDetector::value`. -/
def value (d : EdgeDetector) : Option Bool :=
  match d.state with
  | .signalHigh => some true
  | .signalLow => some false
  | _ => none

/-- Feed a sample. The callback that is called reports an edge, a rising one if the signal is
high behind it. -/
def feed (d : EdgeDetector) (sample : UInt8 × ℤ) : (Option Edge × Option Bool) × EdgeDetector :=
  let (fired, d') := d.feedAnalogSignal sample.1 sample.2
  ((if fired then some ⟨d'.value == some true, sample.2⟩ else none, d'.value), d')

/-- The value that a sample stands for, `none` in the middle range. -/
def range (d : EdgeDetector) (signal : UInt8) : Option Bool :=
  if signal < d.midRangeStart then some false
  else if d.midRangeEnd ≤ signal then some true
  else none

/-- An edge for which a callback is installed. -/
def installed (d : EdgeDetector) (edge : Edge) : Bool :=
  if edge.rising then d.risingCallback else d.fallingCallback

end EdgeDetector

/-! ### The machine -/

/-- The state of a debounced signal: its value, when it is known, and its last edge. -/
structure Debounced where
  value : Option Bool
  lastEdge : Option ℤ
  deriving DecidableEq, Repr

namespace Debounced

/-- Nothing is known yet. -/
def unknown : Debounced := ⟨none, none⟩

/-- A sample in the low or high range decides the value of the signal. The first value is not
an edge. -/
def process (d : EdgeDetector) (r : Debounced) (sample : UInt8 × ℤ) :
    (Option Edge × Option Bool) × Debounced :=
  match d.range sample.1 with
  | none => ((none, r.value), r)
  | some v =>
      if r.value = some v then ((none, r.value), r)
      else if r.value = none then ((none, some v), { r with value := some v })
      else
        ((if d.installed ⟨v, sample.2⟩ then some ⟨v, sample.2⟩ else none, some v),
          ⟨some v, some sample.2⟩)

/-- The time is within the debouncing interval behind the last edge. -/
def ignores (d : EdgeDetector) (r : Debounced) (time : ℤ) : Prop :=
  ∃ t, r.lastEdge = some t ∧ time < t + d.debounceMs.toNat

instance (d : EdgeDetector) (r : Debounced) (time : ℤ) : Decidable (r.ignores d time) :=
  match h : r.lastEdge with
  | none => isFalse (by simp [ignores, h])
  | some t => decidable_of_iff (time < t + d.debounceMs.toNat) (by simp [ignores, h])

/-- Feed a sample to the machine. -/
def feed (d : EdgeDetector) (r : Debounced) (sample : UInt8 × ℤ) :
    (Option Edge × Option Bool) × Debounced :=
  if r.ignores d sample.2 then ((none, r.value), r) else r.process d sample

/-- The sample changes the value of the signal. -/
def Decisive (d : EdgeDetector) (r : Debounced) (signal : UInt8) : Prop :=
  ∃ v, d.range signal = some v ∧ r.value ≠ some v

/-- A sample that changes the value comes at the very end of the debouncing interval, or, as
long as there was no edge, not later than after one debouncing interval. -/
def OnSchedule (d : EdgeDetector) (r : Debounced) (sample : UInt8 × ℤ) : Prop :=
  r.Decisive d sample.1 →
    (r.lastEdge = none → sample.2 ≤ d.debounceMs.toNat) ∧
      ∀ t, r.lastEdge = some t → sample.2 = t + d.debounceMs.toNat

instance (d : EdgeDetector) (r : Debounced) (signal : UInt8) : Decidable (r.Decisive d signal) :=
  inferInstanceAs (Decidable (∃ v, d.range signal = some v ∧ r.value ≠ some v))

instance (d : EdgeDetector) (r : Debounced) (sample : UInt8 × ℤ) :
    Decidable (r.OnSchedule d sample) :=
  match h : r.lastEdge with
  | none =>
      decidable_of_iff (r.Decisive d sample.1 → sample.2 ≤ d.debounceMs.toNat)
        (by simp [OnSchedule, h])
  | some t =>
      decidable_of_iff (r.Decisive d sample.1 → sample.2 = t + d.debounceMs.toNat)
        (by simp [OnSchedule, h])

variable {d : EdgeDetector} {r : Debounced} {sample : UInt8 × ℤ}

/-- A sample that is not decisive does not change anything. -/
theorem process_of_not_decisive (h : ¬ r.Decisive d sample.1) :
    r.process d sample = ((none, r.value), r) := by
  rw [process]
  cases hrange : d.range sample.1 with
  | none => rfl
  | some v =>
      have hsame : r.value = some v := by
        by_contra hne
        exact h ⟨v, hrange, hne⟩
      simp only [hsame, if_true]

/-- **A decisive sample** shows: the value is another one behind it. -/
theorem process_value_ne (h : r.Decisive d sample.1) : (r.process d sample).1.2 ≠ r.value := by
  obtain ⟨v, hrange, hne⟩ := h
  rw [process, hrange]
  simp only [hne, if_false]
  split <;> exact hne.symm

end Debounced

/-! ### The detector as the machine without a filter -/

namespace EdgeDetector

/-- The detector that is in the state of a debounced signal. -/
def track (d : EdgeDetector) (r : Debounced) : EdgeDetector :=
  { d with
    lastTransition := r.lastEdge.getD 0
    state := match r.value with
      | none => .start
      | some false => .signalLow
      | some true => .signalHigh }

theorem value_track (d : EdgeDetector) (r : Debounced) : (d.track r).value = r.value := by
  obtain ⟨value, lastEdge⟩ := r
  cases value with
  | none => rfl
  | some v => cases v <;> rfl

theorem track_unknown (d : EdgeDetector) : d.track .unknown = d.reset := rfl

/-- The filter of the detector, as it is: it ignores what comes after the debouncing
interval. -/
def Filters (d : EdgeDetector) (r : Debounced) (time : ℤ) : Prop :=
  0 < d.debounceMs ∧ r.lastEdge.getD 0 + d.debounceMs.toNat < time

/-- A sample that is filtered. -/
theorem feed_track_of_filters {d : EdgeDetector} {r : Debounced} {sample : UInt8 × ℤ}
    (h : d.Filters r sample.2) : (d.track r).feed sample = ((none, r.value), d.track r) := by
  have hskip : (d.track r).feedAnalogSignal sample.1 sample.2 = (false, d.track r) := if_pos h
  rw [feed, hskip]
  simp [value_track]

/-- The ranges do not overlap. -/
theorem range_cases {d : EdgeDetector} (hrange : d.midRangeStart ≤ d.midRangeEnd)
    (signal : UInt8) :
    (signal < d.midRangeStart ∧ ¬ d.midRangeEnd ≤ signal ∧ d.range signal = some false) ∨
    (¬ signal < d.midRangeStart ∧ d.midRangeEnd ≤ signal ∧ d.range signal = some true) ∨
    (¬ signal < d.midRangeStart ∧ ¬ d.midRangeEnd ≤ signal ∧ d.range signal = none) := by
  rw [UInt8.le_iff_toNat_le] at hrange
  simp only [range, UInt8.lt_iff_toNat_lt, UInt8.le_iff_toNat_le]
  by_cases hlow : signal.toNat < d.midRangeStart.toNat
  · exact Or.inl ⟨hlow, by omega, if_pos hlow⟩
  · rw [if_neg hlow]
    by_cases hhigh : d.midRangeEnd.toNat ≤ signal.toNat
    · exact Or.inr (Or.inl ⟨hlow, hhigh, if_pos hhigh⟩)
    · exact Or.inr (Or.inr ⟨hlow, hhigh, if_neg hhigh⟩)

/-- **A sample that is not filtered** is processed: by its range and the value before it. -/
theorem feed_track_of_not_filters {d : EdgeDetector} {r : Debounced} {sample : UInt8 × ℤ}
    (hrange : d.midRangeStart ≤ d.midRangeEnd) (h : ¬ d.Filters r sample.2) :
    (d.track r).feed sample = ((r.process d sample).1, d.track (r.process d sample).2) := by
  obtain ⟨value, lastEdge⟩ := r
  obtain ⟨signal, time⟩ := sample
  have hopen : ¬ (0 < (d.track ⟨value, lastEdge⟩).debounceMs ∧
      (d.track ⟨value, lastEdge⟩).lastTransition +
        (d.track ⟨value, lastEdge⟩).debounceMs.toNat < time) := h
  rw [feed, feedAnalogSignal, if_neg hopen]
  rcases range_cases hrange signal with ⟨hlow, hhigh, hvalue⟩ | ⟨hlow, hhigh, hvalue⟩ |
      ⟨hlow, hhigh, hvalue⟩
  all_goals
    rcases value with _ | _ | _ <;>
      simp [track, Debounced.process, EdgeDetector.value, installed, hlow, hhigh, hvalue]

end EdgeDetector

/-! ### Agreement -/

namespace Debounced

variable {d : EdgeDetector} {r : Debounced} {sample : UInt8 × ℤ}

/-- Where neither of them ignores the sample, the detector agrees with the machine. -/
theorem feed_eq_of_open (hrange : d.midRangeStart ≤ d.midRangeEnd)
    (hfilters : ¬ d.Filters r sample.2) (hignores : ¬ r.ignores d sample.2) :
    (d.track r).feed sample = ((r.feed d sample).1, d.track (r.feed d sample).2) := by
  rw [EdgeDetector.feed_track_of_not_filters hrange hfilters, feed, if_neg hignores]

/-- Without debouncing, nothing is ignored. -/
theorem feed_eq_of_zero (hrange : d.midRangeStart ≤ d.midRangeEnd) (hzero : d.debounceMs = 0)
    (htime : ∀ t, r.lastEdge = some t → t ≤ sample.2) :
    (d.track r).feed sample = ((r.feed d sample).1, d.track (r.feed d sample).2) := by
  refine feed_eq_of_open hrange ?_ ?_
  · rintro ⟨hpos, -⟩
    rw [hzero] at hpos
    exact absurd hpos (by decide)
  · rintro ⟨t, hlast, hlt⟩
    have hle := htime t hlast
    rw [hzero, UInt16.toNat_zero] at hlt
    omega

/-- **A sample on schedule** is treated alike. -/
theorem OnSchedule.feed_eq (h : r.OnSchedule d sample)
    (hrange : d.midRangeStart ≤ d.midRangeEnd) :
    (d.track r).feed sample = ((r.feed d sample).1, d.track (r.feed d sample).2) := by
  by_cases hdecisive : r.Decisive d sample.1
  · obtain ⟨hfirst, hlater⟩ := h hdecisive
    refine feed_eq_of_open hrange ?_ ?_
    · rintro ⟨-, hlt⟩
      cases hlast : r.lastEdge with
      | none =>
          have hle := hfirst hlast
          rw [hlast, Option.getD_none] at hlt
          omega
      | some t =>
          have heq := hlater t hlast
          rw [hlast, Option.getD_some] at hlt
          omega
    · rintro ⟨t, hlast, hlt⟩
      have heq := hlater t hlast
      omega
  · -- nothing changes, whether or not the sample is ignored
    have hsame := process_of_not_decisive hdecisive
    have hfeed : r.feed d sample = ((none, r.value), r) := by
      rw [feed]
      split
      · rfl
      · exact hsame
    rw [hfeed]
    by_cases hfilters : d.Filters r sample.2
    · exact EdgeDetector.feed_track_of_filters hfilters
    · rw [EdgeDetector.feed_track_of_not_filters hrange hfilters, hsame]

/-- **A sample that is treated alike** is on schedule, with debouncing. -/
theorem onSchedule_of_feed_eq (hrange : d.midRangeStart ≤ d.midRangeEnd)
    (hpos : 0 < d.debounceMs) (h : ((d.track r).feed sample).1 = (r.feed d sample).1) :
    r.OnSchedule d sample := by
  intro hdecisive
  have hchanges := process_value_ne hdecisive
  have htimes : d.Filters r sample.2 ↔ r.ignores d sample.2 := by
    by_cases hfilters : d.Filters r sample.2 <;> by_cases hignores : r.ignores d sample.2
    · exact iff_of_true hfilters hignores
    · -- only the detector ignores the sample
      rw [EdgeDetector.feed_track_of_filters hfilters, feed, if_neg hignores] at h
      exact absurd (congrArg Prod.snd h).symm hchanges
    · -- only the machine ignores the sample
      rw [EdgeDetector.feed_track_of_not_filters hrange hfilters, feed, if_pos hignores] at h
      exact absurd (congrArg Prod.snd h) hchanges
    · exact iff_of_false hfilters hignores
  refine ⟨fun hlast => ?_, fun t hlast => ?_⟩
  · by_contra hlate
    have hfilters : d.Filters r sample.2 := ⟨hpos, by rw [hlast, Option.getD_none]; omega⟩
    obtain ⟨t, hsome, -⟩ := htimes.mp hfilters
    rw [hlast] at hsome
    cases hsome
  · have hiff : t + d.debounceMs.toNat < sample.2 ↔ sample.2 < t + d.debounceMs.toNat := by
      simpa [EdgeDetector.Filters, ignores, hlast, hpos] using htimes
    omega

/-! ### Edges -/

/-- **Feeding a sample** to the machine, with both callbacks: there is no edge and a known value
stays, or the value turns over and an edge is reported. -/
theorem feed_cases (hrising : d.risingCallback = true) (hfalling : d.fallingCallback = true)
    (r : Debounced) (sample : UInt8 × ℤ) :
    ((r.feed d sample).1.1 = none ∧ (r.feed d sample).2.lastEdge = r.lastEdge ∧
      ∀ v, r.value = some v → (r.feed d sample).2.value = some v) ∨
    (∃ v, r.value = some (!v) ∧ ¬ r.ignores d sample.2 ∧
      r.feed d sample = ((some ⟨v, sample.2⟩, some v), ⟨some v, some sample.2⟩)) := by
  rw [feed]
  split
  case isTrue => exact Or.inl ⟨rfl, rfl, fun _ h => h⟩
  case isFalse hopen =>
    rw [process]
    cases d.range sample.1 with
    | none => exact Or.inl ⟨rfl, rfl, fun _ h => h⟩
    | some v =>
        have hinstalled : d.installed ⟨v, sample.2⟩ = true := by
          cases v <;> simp [EdgeDetector.installed, hrising, hfalling]
        obtain ⟨value, lastEdge⟩ := r
        cases value with
        | none => exact Or.inl ⟨rfl, rfl, fun _ h => by cases h⟩
        | some u =>
            by_cases hsame : u = v
            · subst hsame
              exact Or.inl (by simp)
            · refine Or.inr ⟨v, ?_, hopen, ?_⟩
              · rw [Bool.eq_not.mpr hsame]
              · simp [hsame, hinstalled]

/-- Two edges alternate, and the debouncing interval lies between them. -/
def Apart (d : EdgeDetector) (e e' : Edge) : Prop :=
  e'.rising = !e.rising ∧ e.time + d.debounceMs.toNat ≤ e'.time

/-- The edges that the machine reports. -/
def reports (d : EdgeDetector) (r : Debounced) (samples : List (UInt8 × ℤ)) : List Edge :=
  (observe (feed d) r samples).filterMap (·.1)

/-- **The edges alternate**, and the debouncing interval lies between them: by induction on the
samples, with the last edge before them. -/
theorem reports_apart (hrising : d.risingCallback = true) (hfalling : d.fallingCallback = true)
    (samples : List (UInt8 × ℤ)) {r : Debounced} {last : Option Edge}
    (hlast : ∀ e, last = some e → r.lastEdge = some e.time ∧ r.value = some e.rising) :
    (last.toList ++ reports d r samples).IsChain (Apart d) := by
  induction samples generalizing r last with
  | nil => cases last <;> simp [reports, observe]
  | cons sample samples ih =>
      rw [reports, observe]
      rcases feed_cases hrising hfalling r sample with ⟨hnone, hedge, hvalue⟩ |
        ⟨v, hvalue, hopen, hfeed⟩
      · rw [List.filterMap_cons_none hnone]
        refine ih fun e he => ?_
        obtain ⟨htime, hrise⟩ := hlast e he
        exact ⟨hedge.trans htime, hvalue _ hrise⟩
      · have hrest := @ih (r.feed d sample).2 (some ⟨v, sample.2⟩) fun e he => by
          obtain rfl := Option.some.inj he
          rw [hfeed]
          exact ⟨rfl, rfl⟩
        rw [List.filterMap_cons_some (b := ⟨v, sample.2⟩) (by rw [hfeed])]
        cases last with
        | none => exact hrest
        | some e =>
            obtain ⟨htime, hrise⟩ := hlast e rfl
            refine List.isChain_cons_cons.mpr ⟨⟨?_, ?_⟩, hrest⟩
            · rw [hvalue] at hrise
              rw [← Option.some.inj hrise, Bool.not_not]
            · by_contra hlt
              exact hopen ⟨e.time, htime, Int.not_le.mp hlt⟩

/-- The last edge stays, or it is at the time of the sample. -/
theorem lastEdge_feed (d : EdgeDetector) (r : Debounced) (sample : UInt8 × ℤ) :
    (r.feed d sample).2.lastEdge = r.lastEdge ∨
      (r.feed d sample).2.lastEdge = some sample.2 := by
  rw [feed]
  split
  case isTrue => exact .inl rfl
  case isFalse =>
    rw [process]
    cases d.range sample.1 with
    | none => exact .inl rfl
    | some v =>
        dsimp only
        split
        case isTrue => exact .inl rfl
        case isFalse =>
          split
          case isTrue => exact .inl rfl
          case isFalse => exact .inr rfl

/-- Times that do not decrease are never before the last edge. -/
theorem along_of_pairwise {samples : List (UInt8 × ℤ)}
    (hmono : samples.Pairwise fun s s' => s.2 ≤ s'.2)
    (hlast : ∀ s ∈ samples, ∀ t, r.lastEdge = some t → t ≤ s.2) :
    Along (feed d) (fun r s => ∀ t, r.lastEdge = some t → t ≤ s.2) r samples := by
  induction samples generalizing r with
  | nil => trivial
  | cons sample samples ih =>
      obtain ⟨hfirst, hrest⟩ := List.pairwise_cons.mp hmono
      refine ⟨hlast sample (List.mem_cons_self ..), ih hrest fun s hs t ht => ?_⟩
      rcases lastEdge_feed d r sample with hkept | hnew
      · exact hlast s (List.mem_cons_of_mem _ hs) t (hkept.symm.trans ht)
      · rw [hnew] at ht
        cases ht
        exact hfirst s hs

end Debounced

open EdgeDetector Debounced in
/-- What an edge detector is for: after every sample, the detector has the value of the machine
and has reported the same edge; with both callbacks, the edges that it reports alternate and
the debouncing interval lies between them. -/
structure DetectsEdges (d : EdgeDetector) (samples : List (UInt8 × ℤ)) : Prop where
  follows : observe EdgeDetector.feed d.reset samples =
    observe (Debounced.feed d) .unknown samples
  apart : d.risingCallback = true → d.fallingCallback = true →
    ((observe EdgeDetector.feed d.reset samples).filterMap (·.1)).IsChain (Apart d)

open EdgeDetector Debounced in
/-- **The detector works** exactly when there is no debouncing or every sample that changes the
value of the signal comes at the very end of the debouncing interval, or not later than after
one debouncing interval as long as there was no edge. -/
theorem edge_detection_iff (d : EdgeDetector) (hrange : d.midRangeStart ≤ d.midRangeEnd)
    (samples : List (UInt8 × ℤ)) (hmono : samples.Pairwise fun s s' => s.2 ≤ s'.2) :
    DetectsEdges d samples ↔
      d.debounceMs = 0 ∨ Along (Debounced.feed d) (OnSchedule d) .unknown samples := by
  have hfollows : observe EdgeDetector.feed d.reset samples =
      observe (Debounced.feed d) .unknown samples ↔
        d.debounceMs = 0 ∨ Along (Debounced.feed d) (OnSchedule d) .unknown samples := by
    rw [← d.track_unknown]
    by_cases hzero : d.debounceMs = 0
    · refine iff_of_true ?_ (Or.inl hzero)
      refine observe_eq_of_along (R := fun d' r => d' = d.track r) ?_ rfl
        (along_of_pairwise hmono fun s _ t ht => by cases ht)
      rintro _ r sample rfl htime
      rw [feed_eq_of_zero hrange hzero htime]
      exact ⟨rfl, rfl⟩
    · have hpos : 0 < d.debounceMs := UInt16.pos_iff_ne_zero.mpr hzero
      have hstep : ∀ (d' : EdgeDetector) r sample, d' = d.track r → OnSchedule d r sample →
          (d'.feed sample).1 = (r.feed d sample).1 ∧
            (d'.feed sample).2 = d.track (r.feed d sample).2 := by
        rintro _ r sample rfl hschedule
        rw [hschedule.feed_eq hrange]
        exact ⟨rfl, rfl⟩
      refine ⟨fun hobs => Or.inr ?_, fun h => ?_⟩
      · refine along_of_observe_eq hstep ?_ rfl hobs
        rintro _ r sample rfl heq
        exact onSchedule_of_feed_eq hrange hpos heq
      · exact observe_eq_of_along hstep rfl (h.resolve_left hzero)
  refine ⟨fun h => hfollows.mp h.follows, fun h => ⟨hfollows.mpr h, fun hrising hfalling => ?_⟩⟩
  rw [hfollows.mpr h]
  exact @reports_apart d hrising hfalling samples .unknown none fun e he => by cases he

/-- With a debouncing interval of 10 ms: a rise at its end and a fall one interval later, each
through the middle range. -/
theorem edge_detection_iff_onSchedule :
    DetectsEdges
      { EdgeDetector.initial with
        debounceMs := 10
        risingCallback := true
        fallingCallback := true }
      [(0, 0), (128, 4), (255, 10), (128, 15), (0, 20)] :=
  (edge_detection_iff _ (by decide) _ (by decide)).mpr (Or.inr (by decide))

/-- With a debouncing interval of 10 ms, a detector misses a rise after one second. -/
theorem first_edge_missed :
    ¬ ∀ (d : EdgeDetector) (samples : List (UInt8 × ℤ)), 0 < d.midRangeStart →
      d.midRangeStart ≤ d.midRangeEnd → (∀ s ∈ samples, 0 ≤ s.2) →
      (samples.Pairwise fun s s' => s.2 ≤ s'.2) → DetectsEdges d samples := by
  intro h
  have hfollows := (h { EdgeDetector.initial with debounceMs := 10, risingCallback := true }
    [(0, 0), (255, 1000)] (by decide) (by decide) (by decide) (by decide)).follows
  exact absurd hfollows (by decide)

end Skybrush
