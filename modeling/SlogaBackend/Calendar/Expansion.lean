import SlogaBackend.Lib.Enumeration
import SlogaBackend.Calendar.Events

/-!
# The occurrences of a series

The three loops of the expansion collect the instants of a list of local times that depends on
the rule and the first start only, not on where the expansion stops. Those local times are at
least a day apart, so the instants never step back, whatever the zone does in between; that is
why stopping at the first start past a bound loses no start within it.

* `seriesOccurrenceStartsBounded_eq_collect`: the loops, as one.
* `progression_seriesLocals`: local times are at least a day apart.
* `seriesOccurrenceStarts_sorted`, `seriesOccurrenceStartsBounded_eq_filter`: what follows for the
  starts of occurrences.
* `start_le_of_not_first`: only the first of them can lie before the start of the event.
* `le_computeSeriesEnd`: none lies past the end of the series.
-/

namespace SlogaBackend.Calendar

open Gregorian Enumeration

/-! ## The loops -/

/-- Whether an instant is not past the end. -/
def withinUntil (untilMs : Option Int) (ms : Int) : Bool := !untilMs.any fun until_ => until_ < ms

/-- The local times that a loop over units tries. -/
def unitLocals (naiveAt : Nat → Option Int) : (fuel n : Nat) → List Int
  | 0, _ => []
  | fuel + 1, n =>
    match naiveAt n with
    | none => []
    | some naive => naive :: unitLocals naiveAt fuel (n + 1)

def weekdayLocals (startLocal blockMonday : Int) (weekdays : List Int) : List Int :=
  (weekdays.filterMap fun weekday => checkedAddSigned blockMonday (weekday * dayMs)).filter
    fun candidate => startLocal ≤ candidate

/-- The local times that the loop over blocks tries. -/
def blockLocals (startLocal weekMonday interval : Int) (weekdays : List Int) :
    (fuel block : Nat) → List Int
  | 0, _ => []
  | fuel + 1, block =>
    match checkedAddSigned weekMonday (interval * block * (7 * dayMs)) with
    | none => []
    | some blockMonday => weekdayLocals startLocal blockMonday weekdays ++
        blockLocals startLocal weekMonday interval weekdays fuel (block + 1)

section Loops

variable {zone : Zone} {untilMs : Option Int} {countCap : Nat}

theorem appendOccurrence_of_within {naive : Int} (out : List Int)
    (hwit : withinUntil untilMs (localToUtcMs zone naive) = true) :
    appendOccurrence zone untilMs out naive = some (out ++ [localToUtcMs zone naive]) := by
  unfold withinUntil at hwit
  rw [not_eq_true'] at hwit
  unfold appendOccurrence
  rw [hwit]
  rfl

theorem appendOccurrence_of_past {naive : Int} (out : List Int)
    (hps : withinUntil untilMs (localToUtcMs zone naive) = false) :
    appendOccurrence zone untilMs out naive = none := by
  unfold withinUntil at hps
  rw [Bool.not_eq_false'] at hps
  exact if_pos hps

theorem unitsLoop_eq (naiveAt : Nat → Option Int) (fuel n : Nat) (out : List Int) :
    unitsLoop zone untilMs countCap naiveAt fuel n out =
      collect (localToUtcMs zone) (withinUntil untilMs) countCap (unitLocals naiveAt fuel n)
        out := by
  induction fuel generalizing n out with
  | zero => rfl
  | succ fuel ih =>
    unfold unitsLoop
    by_cases hrm : out.length < countCap
    · rw [if_pos hrm]
      unfold unitLocals
      cases naiveAt n with
      | none => rfl
      | some naive =>
        dsimp only
        cases hwit : withinUntil untilMs (localToUtcMs zone naive) with
        | true =>
          rw [appendOccurrence_of_within out hwit, collect_cons hrm hwit]
          exact ih (n + 1) _
        | false => rw [appendOccurrence_of_past out hwit, collect_past hwit]
    · rw [if_neg hrm, collect_full hrm]

theorem weekdaysLoop_spec (startLocal blockMonday : Int) (weekdays out rest : List Int) :
    collect (localToUtcMs zone) (withinUntil untilMs) countCap
        (weekdayLocals startLocal blockMonday weekdays ++ rest) out =
      match weekdaysLoop zone untilMs countCap startLocal blockMonday weekdays out with
      | (out, true) => out
      | (out, false) => collect (localToUtcMs zone) (withinUntil untilMs) countCap rest out := by
  induction weekdays generalizing out with
  | nil => rfl
  | cons weekday weekdays ih =>
    unfold weekdaysLoop weekdayLocals
    rw [List.filterMap_cons]
    cases checkedAddSigned blockMonday (weekday * dayMs) with
    | none => exact ih out
    | some candidate =>
      dsimp only
      by_cases hbef : candidate < startLocal
      · rw [if_pos hbef, List.filter_cons_of_neg (by simpa using hbef)]
        exact ih out
      · rw [if_neg hbef, List.filter_cons_of_pos (by simpa using hbef), cons_append]
        by_cases hrm : out.length < countCap
        · rw [if_neg (Nat.not_le.mpr hrm)]
          cases hwit : withinUntil untilMs (localToUtcMs zone candidate) with
          | true =>
            rw [appendOccurrence_of_within out hwit, collect_cons hrm hwit]
            exact ih _
          | false => rw [appendOccurrence_of_past out hwit, collect_past hwit]
        · rw [if_pos (Nat.not_lt.mp hrm), collect_full hrm]

theorem blocksLoop_eq (startLocal weekMonday interval : Int) (weekdays : List Int)
    (fuel block : Nat) (out : List Int) :
    blocksLoop zone untilMs countCap startLocal weekMonday interval weekdays fuel block out =
      collect (localToUtcMs zone) (withinUntil untilMs) countCap
        (blockLocals startLocal weekMonday interval weekdays fuel block) out := by
  induction fuel generalizing block out with
  | zero => rfl
  | succ fuel ih =>
    unfold blocksLoop
    by_cases hrm : out.length < countCap
    · rw [if_pos hrm]
      unfold blockLocals
      cases checkedAddSigned weekMonday (interval * block * (7 * dayMs)) with
      | none => rfl
      | some blockMonday =>
        dsimp only
        rw [weekdaysLoop_spec]
        rcases weekdaysLoop zone untilMs countCap startLocal blockMonday weekdays out with
          ⟨out', stopped⟩
        cases stopped with
        | true => rfl
        | false => exact ih (block + 1) out'
    · rw [if_neg hrm, collect_full hrm]

end Loops

/-- The local times of a series, up to the number of units that the loops go through. -/
def seriesLocals (startLocal : Int) (rule : RecurrenceRule) : List Int :=
  let interval : Int := max rule.interval 1
  match rule.freq, rule.byWeekday with
  | .daily, _ =>
    unitLocals (fun n => checkedAddSigned startLocal (interval * n * dayMs)) (maxOccurrences + 1) 0
  | .weekly, [] =>
    unitLocals (fun n => checkedAddSigned startLocal (interval * n * (7 * dayMs)))
      (maxOccurrences + 1) 0
  | .weekly, byWeekday =>
    blockLocals startLocal (mondayOfWeek startLocal) interval (sortedWeekdays byWeekday)
      (maxOccurrences + 1) 0
  | .monthly, _ => unitLocals (monthsAfter startLocal interval) (maxOccurrences + 1) 0

theorem seriesOccurrenceStartsBounded_eq_collect (zones : String → Option Zone)
    {event : CalendarEvent} {rule : RecurrenceRule} (hrl : event.recurrence = some rule)
    (stopAfter : Option Int) : seriesOccurrenceStartsBounded zones event stopAfter =
      collect (localToUtcMs (event.zone zones)) (withinUntil (rule.untilMs stopAfter))
        rule.countCap (seriesLocals (event.startLocal zones) rule) [] := by
  unfold seriesOccurrenceStartsBounded seriesLocals
  rw [hrl]
  dsimp only
  cases rule.freq with
  | weekly =>
    cases rule.byWeekday with
    | nil => exact unitsLoop_eq ..
    | cons weekday weekdays => exact blocksLoop_eq ..
  | _ => exact unitsLoop_eq ..

/-! ## Days apart -/

/-- The local times of a series that starts at a local time. -/
structure Progression (startLocal : Int) (locals : List Int) : Prop where
  spaced : locals.Pairwise fun naive naive' => naive + dayMs ≤ naive'
  inRange : ∀ naive ∈ locals, inRange naive
  later : ∀ naive ∈ locals.tail, startLocal + dayMs ≤ naive

variable {naive interval date : Int}

theorem inRange_of_checkedAddSigned {duration naive' : Int}
    (hadd : checkedAddSigned naive duration = some naive') :
    naive' = naive + duration ∧ inRange naive' := by
  unfold checkedAddSigned at hadd
  split at hadd
  · injection hadd with heq
    subst heq
    exact ⟨rfl, ‹_›⟩
  · cases hadd

theorem steps_apart (hint : 1 ≤ interval) {n m : Nat} (hnm : n < m) :
    interval * n + 1 ≤ interval * m := by
  have hsc : (n : Int) + 1 ≤ m := by omega
  calc interval * n + 1 ≤ interval * n + interval := by omega
    _ = interval * (n + 1) := by ring
    _ ≤ interval * m := Int.mul_le_mul_of_nonneg_left hsc (by omega)

theorem units_apart {unit : Int} (hint : 1 ≤ interval) (hun : dayMs ≤ unit) {n m : Nat}
    (hnm : n < m) : interval * n * unit + dayMs ≤ interval * m * unit := by
  have hday : 0 ≤ dayMs := by decide
  calc interval * n * unit + dayMs ≤ interval * n * unit + unit := by omega
    _ = (interval * n + 1) * unit := by ring
    _ ≤ interval * m * unit := Int.mul_le_mul_of_nonneg_right (steps_apart hint hnm) (by omega)

section Units

variable {naiveAt : Nat → Option Int}

theorem mem_unitLocals {naive : Int} {fuel n : Nat} (hmem : naive ∈ unitLocals naiveAt fuel n) :
    ∃ m, n ≤ m ∧ naiveAt m = some naive := by
  induction fuel generalizing n with
  | zero => cases hmem
  | succ fuel ih =>
    unfold unitLocals at hmem
    split at hmem
    · cases hmem
    · rename_i hfst
      rcases mem_cons.mp hmem with rfl | hmem
      · exact ⟨n, le_refl n, hfst⟩
      · obtain ⟨m, hm, hnaiv⟩ := ih hmem
        exact ⟨m, by omega, hnaiv⟩

theorem pairwise_unitLocals
    (hspac : ∀ {n m : Nat} {naive naive' : Int}, n < m → naiveAt n = some naive →
      naiveAt m = some naive' → naive + dayMs ≤ naive') (fuel n : Nat) :
    (unitLocals naiveAt fuel n).Pairwise fun naive naive' => naive + dayMs ≤ naive' := by
  induction fuel generalizing n with
  | zero => exact List.Pairwise.nil
  | succ fuel ih =>
    unfold unitLocals
    split
    · exact List.Pairwise.nil
    · rename_i hfst
      refine List.Pairwise.cons (fun naive hmem => ?_) (ih (n + 1))
      obtain ⟨m, hm, hnaiv⟩ := mem_unitLocals hmem
      exact hspac (by omega) hfst hnaiv

theorem progression_unitLocals {startLocal : Int}
    (hspac : ∀ {n m : Nat} {naive naive' : Int}, n < m → naiveAt n = some naive →
      naiveAt m = some naive' → naive + dayMs ≤ naive')
    (hran : ∀ {n : Nat} {naive : Int}, naiveAt n = some naive → inRange naive)
    (hlat : ∀ {n : Nat} {naive : Int}, 0 < n → naiveAt n = some naive →
      startLocal + dayMs ≤ naive) (fuel : Nat) :
    Progression startLocal (unitLocals naiveAt fuel 0) where
  spaced := pairwise_unitLocals hspac fuel 0
  inRange naive hmem := by
    obtain ⟨m, -, hnaiv⟩ := mem_unitLocals hmem
    exact hran hnaiv
  later naive hmem := by
    cases fuel with
    | zero => cases hmem
    | succ fuel =>
      unfold unitLocals at hmem
      split at hmem
      · cases hmem
      · obtain ⟨m, hm, hnaiv⟩ := mem_unitLocals hmem
        exact hlat (by omega) hnaiv

theorem progression_units {interval unit : Int} (hint : 1 ≤ interval)
    (hun : dayMs ≤ unit) (startLocal : Int) (fuel : Nat) : Progression startLocal
      (unitLocals (fun n => checkedAddSigned startLocal (interval * n * unit)) fuel 0) := by
  refine progression_unitLocals (fun {n m naive naive'} hnm hn hm => ?_)
    (fun hn => (inRange_of_checkedAddSigned hn).2) (fun {n naive} hpos hn => ?_) fuel
  · have hapa := units_apart hint hun hnm
    have hnaiv := (inRange_of_checkedAddSigned hn).1
    have hnaiv' := (inRange_of_checkedAddSigned hm).1
    omega
  · have hapa := units_apart hint hun hpos
    have hnaiv := (inRange_of_checkedAddSigned hn).1
    omega

end Units

/-! ### Months -/

theorem monthsAfter_spec {startLocal : Int} {n : Nat}
    (hnaiv : monthsAfter startLocal interval n = some naive) :
    ∃ date, naive = andTime date (timeOf startLocal) ∧
      monthStart (monthOf (dateOf startLocal) + interval * n) ≤ date ∧
      date < monthStart (monthOf (dateOf startLocal) + interval * n + 1) ∧
      monthStart (12 * minYear) ≤ date ∧ date < monthStart (12 * (maxYear + 1)) := by
  unfold monthsAfter addMonths yearOfDate month0OfDate at hnaiv
  obtain ⟨date, hdt, rfl⟩ := map_eq_some_iff.mp hnaiv
  unfold fromYmdOpt at hdt
  split at hdt
  · rename_i hval
    obtain ⟨⟨hmin, hmax⟩, hmont, hday, hls⟩ := hval
    injection hdt with hdt
    generalize monthOf (dateOf startLocal) = month at *
    generalize interval * (n : Int) = add at *
    have hmonthOf : 12 * (month / 12 + (month % 12 + add) / 12) +
        ((month % 12 + add) % 12 + 1 - 1) = month + add := by omega
    rw [hmonthOf] at hdt hls
    unfold monthLength at hls
    have hfst : monthStart (12 * minYear) ≤ monthStart (month + add) :=
      monthStart_strictMono.monotone (by omega)
    have hend : monthStart (month + add + 1) ≤ monthStart (12 * (maxYear + 1)) :=
      monthStart_strictMono.monotone (by omega)
    exact ⟨date, rfl, by omega, by omega, by omega, by omega⟩
  · cases hdt

theorem andTime_apart {date' : Int} (time : Int) (hdt : date < date') :
    andTime date time + dayMs ≤ andTime date' time := by
  unfold andTime dayMs
  omega

theorem andTime_dateOf (naive : Int) : andTime (dateOf naive) (timeOf naive) = naive :=
  Int.ediv_mul_add_emod naive dayMs

theorem inRange_andTime {time : Int} (htm : 0 ≤ time ∧ time < dayMs)
    (hmin : monthStart (12 * minYear) ≤ date) (hmax : date < monthStart (12 * (maxYear + 1))) :
    inRange (andTime date time) := by
  unfold inRange andTime dayMs at *
  omega

theorem timeOf_range (naive : Int) : 0 ≤ timeOf naive ∧ timeOf naive < dayMs :=
  ⟨Int.emod_nonneg _ (by decide), Int.emod_lt_of_pos _ (by decide)⟩

theorem progression_months (hint : 1 ≤ interval) (startLocal : Int) (fuel : Nat) :
    Progression startLocal (unitLocals (monthsAfter startLocal interval) fuel 0) := by
  refine progression_unitLocals (fun {n m naive naive'} hnm hn hm => ?_) (fun {n naive} hn => ?_)
    (fun {n naive} hpos hn => ?_) fuel
  · obtain ⟨date, rfl, -, hls, -⟩ := monthsAfter_spec hn
    obtain ⟨date', rfl, hfst, -⟩ := monthsAfter_spec hm
    have hmont : monthStart (monthOf (dateOf startLocal) + interval * n + 1) ≤
        monthStart (monthOf (dateOf startLocal) + interval * m) :=
      monthStart_strictMono.monotone (by have := steps_apart hint hnm; omega)
    exact andTime_apart _ (by omega)
  · obtain ⟨date, rfl, -, -, hmin, hmax⟩ := monthsAfter_spec hn
    exact inRange_andTime (timeOf_range startLocal) hmin hmax
  · obtain ⟨date, rfl, hfst, -⟩ := monthsAfter_spec hn
    have hmont : monthStart (monthOf (dateOf startLocal) + 1) ≤
        monthStart (monthOf (dateOf startLocal) + interval * n) :=
      monthStart_strictMono.monotone (by
        have := steps_apart hint hpos
        omega)
    have hdt := (monthOf_spec (dateOf startLocal)).2
    have hapa := andTime_apart (timeOf startLocal) (show dateOf startLocal < date by omega)
    rwa [andTime_dateOf] at hapa

/-! ### Weekdays -/

theorem mem_weekdayLocals {startLocal blockMonday : Int} {weekdays : List Int}
    (hmem : naive ∈ weekdayLocals startLocal blockMonday weekdays) :
    ∃ weekday ∈ weekdays, naive = blockMonday + weekday * dayMs ∧ startLocal ≤ naive ∧
      inRange naive := by
  obtain ⟨hmem, hstar⟩ := mem_filter.mp hmem
  obtain ⟨weekday, hwee, hadd⟩ := mem_filterMap.mp hmem
  obtain ⟨heq, hran⟩ := inRange_of_checkedAddSigned hadd
  exact ⟨weekday, hwee, heq, of_decide_eq_true hstar, hran⟩

theorem pairwise_weekdayLocals (startLocal blockMonday : Int) {weekdays : List Int}
    (hsor : weekdays.Pairwise (· < ·)) :
    (weekdayLocals startLocal blockMonday weekdays).Pairwise
      fun naive naive' => naive + dayMs ≤ naive' := by
  refine List.Pairwise.filter _ (List.Pairwise.filterMap _ (fun weekday weekday' hlt => ?_) hsor)
  intro naive hnaiv naive' hnaiv'
  have heq := (inRange_of_checkedAddSigned hnaiv).1
  have heq' := (inRange_of_checkedAddSigned hnaiv').1
  unfold dayMs at *
  omega

theorem sortedWeekdays_spec (weekdays : List Weekday) : (sortedWeekdays weekdays).Pairwise (· < ·) ∧
      ∀ weekday ∈ sortedWeekdays weekdays, 0 ≤ weekday ∧ weekday < 7 := by
  have hpr := List.perm_insertionSort (· ≤ ·) ((weekdays.map Weekday.numFromMonday).dedup)
  constructor
  · have hsor := List.pairwise_insertionSort (· ≤ ·) ((weekdays.map Weekday.numFromMonday).dedup)
    have hnod := hpr.nodup_iff.mpr (List.nodup_dedup (weekdays.map Weekday.numFromMonday))
    exact hsor.imp₂ (fun _ _ hle hne => lt_of_le_of_ne hle hne) hnod
  · intro weekday hmem
    obtain ⟨weekday, -, rfl⟩ := mem_map.mp (mem_dedup.mp (hpr.mem_iff.mp hmem))
    cases weekday <;> decide

section Blocks

variable {startLocal weekMonday interval : Int} {weekdays : List Int}

theorem mem_blockLocals {fuel block : Nat} {naive : Int}
    (hmem : naive ∈ blockLocals startLocal weekMonday interval weekdays fuel block) :
    ∃ block', block ≤ block' ∧ ∃ weekday ∈ weekdays,
      naive = weekMonday + interval * block' * (7 * dayMs) + weekday * dayMs ∧
        startLocal ≤ naive ∧ inRange naive := by
  induction fuel generalizing block with
  | zero => cases hmem
  | succ fuel ih =>
    unfold blockLocals at hmem
    split at hmem
    · cases hmem
    · rename_i hmon
      rcases mem_append.mp hmem with hmem | hmem
      · obtain ⟨weekday, hwee, heq, hstar, hran⟩ := mem_weekdayLocals hmem
        rw [(inRange_of_checkedAddSigned hmon).1] at heq
        exact ⟨block, le_refl block, weekday, hwee, heq, hstar, hran⟩
      · obtain ⟨block', hbloc, hrs⟩ := ih hmem
        exact ⟨block', by omega, hrs⟩

section

variable (hint : 1 ≤ interval) (hsor : weekdays.Pairwise (· < ·))
  (hwk : ∀ weekday ∈ weekdays, 0 ≤ weekday ∧ weekday < 7)
include hint hsor hwk

theorem pairwise_blockLocals (fuel block : Nat) :
    (blockLocals startLocal weekMonday interval weekdays fuel block).Pairwise
      fun naive naive' => naive + dayMs ≤ naive' := by
  induction fuel generalizing block with
  | zero => exact List.Pairwise.nil
  | succ fuel ih =>
    unfold blockLocals
    split
    · exact List.Pairwise.nil
    · rename_i blockMonday hmon
      refine List.pairwise_append.mpr
        ⟨pairwise_weekdayLocals startLocal blockMonday hsor, ih (block + 1), ?_⟩
      intro naive hmem naive' hmem'
      obtain ⟨weekday, hwee, heq, -⟩ := mem_weekdayLocals hmem
      obtain ⟨block', hbloc, weekday', hwee', heq', -⟩ := mem_blockLocals hmem'
      -- the last day of a block and the first of a later one
      have hweeks : interval * block * (7 * dayMs) + 7 * dayMs ≤ interval * block' * (7 * dayMs) :=
        calc interval * block * (7 * dayMs) + 7 * dayMs
            = (interval * block + 1) * (7 * dayMs) := by ring
          _ ≤ interval * block' * (7 * dayMs) :=
            Int.mul_le_mul_of_nonneg_right (steps_apart hint hbloc) (by decide)
      have hls := hwk weekday hwee
      have hfst := hwk weekday' hwee'
      have hmondayEq := (inRange_of_checkedAddSigned hmon).1
      unfold dayMs at *
      omega

theorem progression_blocks (fuel : Nat) :
    Progression startLocal (blockLocals startLocal weekMonday interval weekdays fuel 0) where
  spaced := pairwise_blockLocals hint hsor hwk fuel 0
  inRange naive hmem := by
    obtain ⟨block, -, weekday, -, -, -, hran⟩ := mem_blockLocals hmem
    exact hran
  later naive hmem := by
    have hspac : (blockLocals startLocal weekMonday interval weekdays fuel 0).Pairwise
        fun naive naive' => naive + dayMs ≤ naive' :=
      pairwise_blockLocals hint hsor hwk fuel 0
    have hstar : ∀ naive ∈ blockLocals startLocal weekMonday interval weekdays fuel 0,
        startLocal ≤ naive := by
      intro naive hmem
      obtain ⟨block, -, weekday, -, -, hstar, -⟩ := mem_blockLocals hmem
      exact hstar
    cases hloc : blockLocals startLocal weekMonday interval weekdays fuel 0 with
    | nil =>
      rw [hloc] at hmem
      cases hmem
    | cons first rest =>
      rw [hloc] at hmem hspac hstar
      have hfst := hstar first mem_cons_self
      have haft := List.rel_of_pairwise_cons hspac hmem
      omega

end

end Blocks

/-- The local times of a series are at least a day apart, the first aside at least a day after its
start, and all in range. -/
theorem progression_seriesLocals (startLocal : Int) (rule : RecurrenceRule) :
    Progression startLocal (seriesLocals startLocal rule) := by
  have hint : (1 : Int) ≤ max (rule.interval : Int) 1 := le_max_right _ _
  have hwk : dayMs ≤ 7 * dayMs := by decide
  unfold seriesLocals
  cases rule.freq with
  | daily => exact progression_units hint (le_refl dayMs) startLocal _
  | weekly =>
    cases rule.byWeekday with
    | nil => exact progression_units hint hwk startLocal _
    | cons weekday weekdays =>
      obtain ⟨hsor, hdy⟩ := sortedWeekdays_spec (weekday :: weekdays)
      exact progression_blocks hint hsor hdy _
  | monthly => exact progression_months hint startLocal _

/-! ## The starts of occurrences -/

section Starts

variable {zones : String → Option Zone} {event : CalendarEvent}

theorem seriesOccurrenceStarts_of_none (hno : event.recurrence = none) :
    seriesOccurrenceStarts zones event = [event.start.val] := by
  unfold seriesOccurrenceStarts seriesOccurrenceStartsBounded
  rw [hno]
  rfl

theorem withinUntil_untilMs (rule : RecurrenceRule) (bound : Int) :
    withinUntil (rule.untilMs (some bound)) =
      fun ms => withinUntil (rule.untilMs none) ms && decide (ms ≤ bound) := by
  funext ms
  rw [Bool.eq_iff_iff]
  unfold withinUntil RecurrenceRule.untilMs
  cases rule.end_ <;> simp

theorem starts_sublist {rule : RecurrenceRule} (hrl : event.recurrence = some rule) :
    (seriesOccurrenceStarts zones event).Sublist
      ((seriesLocals (event.startLocal zones) rule).map (localToUtcMs (event.zone zones))) := by
  unfold seriesOccurrenceStarts
  rw [seriesOccurrenceStartsBounded_eq_collect zones hrl, collect_nil_eq]
  exact (List.takeWhile_sublist _).trans (List.take_sublist _ _)

section Lawful

variable (hzn : (event.zone zones).Lawful)
include hzn

theorem pairwise_instants (rule : RecurrenceRule) :
    ((seriesLocals (event.startLocal zones) rule).map (localToUtcMs (event.zone zones))).Pairwise
      (· ≤ ·) :=
  pairwise_map.mpr ((progression_seriesLocals _ rule).spaced.imp fun hday =>
    localToUtcMs_mono hzn hday)

/-- **The starts of a series never step back.** -/
theorem seriesOccurrenceStarts_sorted : (seriesOccurrenceStarts zones event).Pairwise (· ≤ ·) := by
  cases hrl : event.recurrence with
  | none =>
    rw [seriesOccurrenceStarts_of_none hrl]
    exact List.pairwise_singleton _ _
  | some rule => exact (pairwise_instants hzn rule).sublist (starts_sublist hrl)

/-- **A bound drops the starts past it and no other.** -/
theorem seriesOccurrenceStartsBounded_eq_filter (bound : Int) :
    seriesOccurrenceStartsBounded zones event (some bound) =
      (seriesOccurrenceStarts zones event).filter fun occ => occ ≤ bound := by
  cases hrl : event.recurrence with
  | none =>
    rw [seriesOccurrenceStarts_of_none hrl]
    unfold seriesOccurrenceStartsBounded
    rw [hrl]
    by_cases hps : bound < event.start.val
    · rw [if_pos (by simpa using hps), List.filter_cons_of_neg (by simpa using hps)]
      rfl
    · rw [if_neg (by simpa using hps), List.filter_cons_of_pos (by simpa using hps)]
      rfl
  | some rule =>
    unfold seriesOccurrenceStarts
    rw [seriesOccurrenceStartsBounded_eq_collect zones hrl,
      seriesOccurrenceStartsBounded_eq_collect zones hrl, withinUntil_untilMs]
    refine collect_and ((pairwise_instants hzn rule).imp fun hle hboun => ?_)
    rw [decide_eq_true_eq] at hboun ⊢
    exact hle.trans hboun

variable {occ : Int}

section

variable {rule : RecurrenceRule} (hrl : event.recurrence = some rule)
  (hocc : occ ∈ seriesOccurrenceStarts zones event)
include hrl hocc

theorem occurrence_range : monthStart (12 * minYear) * dayMs - dayMs < occ ∧
      occ < monthStart (12 * (maxYear + 1)) * dayMs + dayMs := by
  obtain ⟨naive, hmem, rfl⟩ := mem_map.mp ((starts_sublist hrl).subset hocc)
  have hran := (progression_seriesLocals _ rule).inRange naive hmem
  have hnr := localToUtcMs_near hzn naive
  unfold inRange at hran
  omega

/-- An occurrence is far from the limits of an `i64`. -/
theorem occurrence_fits : minI64 + 1000 * dayMs ≤ occ ∧ occ + 1000 * dayMs ≤ maxI64 := by
  have hran := occurrence_range hzn hrl hocc
  have hmin : minI64 + 1000 * dayMs ≤ monthStart (12 * minYear) * dayMs - dayMs := by decide
  have hmax : monthStart (12 * (maxYear + 1)) * dayMs + dayMs + 1000 * dayMs ≤ maxI64 := by decide
  omega

end

/-- Only the first occurrence can lie before the start of an event that chrono represents. -/
theorem start_le_of_not_first (hstar : inRange event.start.val)
    (hocc : occ ∈ (seriesOccurrenceStarts zones event).tail) : event.start.val ≤ occ := by
  cases hrl : event.recurrence with
  | none =>
    rw [seriesOccurrenceStarts_of_none hrl] at hocc
    cases hocc
  | some rule =>
    have hsub : (seriesOccurrenceStarts zones event).Sublist
        ((seriesLocals (event.startLocal zones) rule).map (localToUtcMs (event.zone zones))) :=
      starts_sublist hrl
    have htl := hsub.tail.subset hocc
    rw [← List.map_tail] at htl
    obtain ⟨naive, hmem, rfl⟩ := mem_map.mp htl
    have hlat := (progression_seriesLocals _ rule).later naive hmem
    have hmsToUtc : msToUtc event.start.val = event.start.val := if_pos hstar
    unfold CalendarEvent.startLocal at hlat
    rw [hmsToUtc] at hlat
    have hle := le_localToUtcMs_of_day hzn ⟨le_refl 0, show 0 ≤ 3 * hourMs by decide⟩
      (show (event.zone zones).localOf event.start.val + 0 + dayMs ≤ naive by omega)
    rwa [add_zero] at hle

/-- What holds of every instant from the start of an event on holds of all its occurrences if it
holds of the first. -/
theorem forall_starts_iff {P : Int → Prop} (hlat : ∀ occ, event.start.val ≤ occ → P occ) :
    (if inRange event.start.val then
        ∀ first, (seriesOccurrenceStarts zones event).head? = some first → P first
      else ∀ occ ∈ seriesOccurrenceStarts zones event, P occ) ↔
      ∀ occ ∈ seriesOccurrenceStarts zones event, P occ := by
  by_cases hstar : inRange event.start.val
  · rw [if_pos hstar]
    constructor
    · intro hfst occ hocc
      cases hhd : (seriesOccurrenceStarts zones event).head? with
      | none => exact absurd (List.head?_eq_none_iff.mp hhd) (ne_nil_of_mem hocc)
      | some first =>
        rw [← List.cons_head?_tail hhd] at hocc
        rcases mem_cons.mp hocc with rfl | hrs
        · exact hfst _ hhd
        · exact hlat occ (start_le_of_not_first hzn hstar hrs)
    · exact fun hall first hfst => hall first (List.mem_of_head? hfst)
  · rw [if_neg hstar]

theorem occurrence_i64 (hocc : occ ∈ seriesOccurrenceStarts zones event) :
    minI64 ≤ occ ∧ occ ≤ maxI64 := by
  cases hrl : event.recurrence with
  | none =>
    rw [seriesOccurrenceStarts_of_none hrl] at hocc
    rw [mem_singleton.mp hocc]
    exact event.start.property
  | some rule =>
    have hft := occurrence_fits hzn hrl hocc
    have hday : 0 ≤ dayMs := by decide
    omega

/-- No occurrence lies past the end of the series. -/
theorem le_computeSeriesEnd (hend : ∀ end_, event.end_ = some end_ → event.start.val < end_.val)
    (hocc : occ ∈ seriesOccurrenceStarts zones event) : occ ≤ event.computeSeriesEnd zones := by
  unfold CalendarEvent.computeSeriesEnd
  cases hrl : event.recurrence with
  | none =>
    rw [seriesOccurrenceStarts_of_none hrl] at hocc
    rw [mem_singleton.mp hocc]
    cases hend' : event.end_ with
    | none => exact le_refl _
    | some end_ => exact (hend end_ hend').le
  | some rule =>
    have hft := occurrence_fits hzn hrl hocc
    have hle := (seriesOccurrenceStarts_sorted hzn).rel_getLast hocc
    have hday : 0 ≤ dayMs := by decide
    rw [List.getLast?_eq_some_getLast (ne_nil_of_mem hocc)]
    dsimp only [getD_some]
    unfold clampI64
    omega

end Lawful

end Starts

end SlogaBackend.Calendar
