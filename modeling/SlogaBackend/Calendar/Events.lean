import SlogaBackend.Calendar.Zones
import SlogaBackend.Lib.Collection

/-!
# Calendar events

A scheduled event and its recurrence, the expansion of a series into the starts of its
occurrences, and the creation of an event, which validates it and fills in what is derived.

The expansion stops at a count, at an instant, or where a local date leaves the range that chrono
represents. Its loops run over a number of units (days, weeks, months); `MAX_OCCURRENCES` bounds
them all.
-/

namespace SlogaBackend.Calendar

open Gregorian

def maxOccurrences : Nat := 730

inductive Frequency where
  | daily
  | weekly
  | monthly
  deriving DecidableEq

inductive Weekday where
  | monday
  | tuesday
  | wednesday
  | thursday
  | friday
  | saturday
  | sunday
  deriving DecidableEq

/-- When a series stops. -/
inductive RecurrenceEnd where
  | count (count : Nat)
  | until_ (timestamp : Int)
  deriving DecidableEq

structure RecurrenceRule where
  freq : Frequency
  /-- Every so many units; a `u16`. -/
  interval : Nat
  byWeekday : List Weekday
  end_ : RecurrenceEnd
  /-- Starts of occurrences that are skipped. -/
  exceptions : List Int
  deriving DecidableEq

abbrev I64 := { n : Int // minI64 ≤ n ∧ n ≤ maxI64 }

def wrapI64 (n : Int) : Int := (n - minI64) % 18446744073709551616 + minI64

theorem wrapI64_of_fits {n : Int} (hmin : minI64 ≤ n) (hmax : n ≤ maxI64) : wrapI64 n = n := by
  unfold wrapI64 minI64 maxI64 at *
  omega

structure CalendarEvent where
  id : String
  server : String
  channel : Option String
  creator : String
  title : String
  description : Option String
  location : Option String
  start : I64
  end_ : Option I64
  /-- Derived. -/
  durationMs : Int
  /-- Derived: an upper bound of the whole series. -/
  seriesEnd : Int
  allDay : Bool
  timezone : String
  recurrence : Option RecurrenceRule
  color : Option String
  cancelled : Bool
  sourceMessageId : Option String
  createdAt : Int
  deriving DecidableEq

abbrev Events := Collection CalendarEvent.id

def Weekday.numFromMonday : Weekday → Int
  | .monday => 0
  | .tuesday => 1
  | .wednesday => 2
  | .thursday => 3
  | .friday => 4
  | .saturday => 5
  | .sunday => 6

/-! ## Expansion -/

section Expansion

variable (zone : Zone) (untilMs : Option Int)

/-- Push one occurrence, unless it is past the end: `none` stops the series. -/
def appendOccurrence (out : List Int) (naive : Int) : Option (List Int) :=
  if untilMs.any fun until_ => until_ < localToUtcMs zone naive then none
  else some (out ++ [localToUtcMs zone naive])

/-- The loop over a number of units: days, weeks or months after the start. -/
def unitsLoop (countCap : Nat) (naiveAt : Nat → Option Int) : (fuel n : Nat) → List Int → List Int
  | 0, _, out => out
  | fuel + 1, n, out =>
    if out.length < countCap then
      match naiveAt n with
      | none => out
      | some naive =>
        match appendOccurrence zone untilMs out naive with
        | none => out
        | some out => unitsLoop countCap naiveAt fuel (n + 1) out
    else out

/-- The weekdays of one block of weeks. The flag says that the series has stopped. -/
def weekdaysLoop (countCap : Nat) (startLocal blockMonday : Int) :
    List Int → List Int → List Int × Bool
  | [], out => (out, false)
  | weekday :: weekdays, out =>
    match checkedAddSigned blockMonday (weekday * dayMs) with
    | none => weekdaysLoop countCap startLocal blockMonday weekdays out
    | some candidate =>
      -- weekdays before the anchor in the first block
      if candidate < startLocal then weekdaysLoop countCap startLocal blockMonday weekdays out
      else if countCap ≤ out.length then (out, true)
      else
        match appendOccurrence zone untilMs out candidate with
        | none => (out, true)
        | some out => weekdaysLoop countCap startLocal blockMonday weekdays out

def blocksLoop (countCap : Nat) (startLocal weekMonday interval : Int) (weekdays : List Int) :
    (fuel block : Nat) → List Int → List Int
  | 0, _, out => out
  | fuel + 1, block, out =>
    if out.length < countCap then
      match checkedAddSigned weekMonday (interval * block * (7 * dayMs)) with
      | none => out
      | some blockMonday =>
        match weekdaysLoop zone untilMs countCap startLocal blockMonday weekdays out with
        | (out, true) => out
        | (out, false) =>
          blocksLoop countCap startLocal weekMonday interval weekdays fuel (block + 1) out
    else out

/-- The local time some months after the start, on its day of the month or the last one. -/
def monthsAfter (startLocal interval : Int) (n : Nat) : Option Int :=
  let date := dateOf startLocal
  let (year, month) := addMonths (yearOfDate date) (month0OfDate date) (interval * n)
  let day := min (dayOfDate date) (lastDayOfMonth year month)
  (fromYmdOpt year month day).map fun date => andTime date (timeOf startLocal)

/-- The weekdays of a rule, in order. -/
def sortedWeekdays (weekdays : List Weekday) : List Int :=
  ((weekdays.map Weekday.numFromMonday).dedup).insertionSort (· ≤ ·)

/-- The Monday of the week of a local time, at its time of day. -/
def mondayOfWeek (naive : Int) : Int :=
  andTime (dateOf naive - numDaysFromMonday (dateOf naive)) (timeOf naive)

end Expansion

section Zones

variable (zones : String → Option Zone)

/-- The zone of an event: UTC where the name is not known. -/
def CalendarEvent.zone (event : CalendarEvent) : Zone := (zones event.timezone).getD Zone.utc

theorem CalendarEvent.zone_lawful {zones : String → Option Zone}
    (hzon : ∀ name zone, zones name = some zone → zone.Lawful) (event : CalendarEvent) :
    (event.zone zones).Lawful := by
  unfold CalendarEvent.zone
  cases hnm : zones event.timezone with
  | none => exact Zone.lawful_utc
  | some zone => exact hzon _ zone hnm

def CalendarEvent.startLocal (event : CalendarEvent) : Int :=
  (event.zone zones).localOf (msToUtc event.start.val)

def RecurrenceRule.countCap (rule : RecurrenceRule) : Nat :=
  match rule.end_ with
  | .count count => min count maxOccurrences
  | .until_ _ => maxOccurrences

/-- The last instant for an occurrence to start: that of the rule, of the caller, or the lesser
of the two. -/
def RecurrenceRule.untilMs (rule : RecurrenceRule) (stopAfter : Option Int) : Option Int :=
  match rule.end_, stopAfter with
  | .until_ timestamp, some stop => some (min timestamp stop)
  | .until_ timestamp, none => some timestamp
  | .count _, stop => stop

def seriesOccurrenceStartsBounded (event : CalendarEvent) (stopAfter : Option Int) : List Int :=
  match event.recurrence with
  | none => if stopAfter.any fun bound => bound < event.start.val then [] else [event.start.val]
  | some rule =>
    let zone := event.zone zones
    let startLocal := event.startLocal zones
    let interval : Int := max rule.interval 1
    let countCap := rule.countCap
    let untilMs := rule.untilMs stopAfter
    match rule.freq, rule.byWeekday with
    | .daily, _ =>
      unitsLoop zone untilMs countCap
        (fun n => checkedAddSigned startLocal (interval * n * dayMs)) (maxOccurrences + 1) 0 []
    | .weekly, [] =>
      unitsLoop zone untilMs countCap
        (fun n => checkedAddSigned startLocal (interval * n * (7 * dayMs))) (maxOccurrences + 1) 0 []
    | .weekly, byWeekday =>
      blocksLoop zone untilMs countCap startLocal (mondayOfWeek startLocal) interval
        (sortedWeekdays byWeekday) (maxOccurrences + 1) 0 []
    | .monthly, _ =>
      unitsLoop zone untilMs countCap (monthsAfter startLocal interval) (maxOccurrences + 1) 0 []

def seriesOccurrenceStarts (event : CalendarEvent) : List Int :=
  seriesOccurrenceStartsBounded zones event none

/-- The starts that are skipped. -/
def CalendarEvent.exceptionSet (event : CalendarEvent) : List Int :=
  (event.recurrence.map RecurrenceRule.exceptions).getD []

/-! ## Creation -/

/-- `char::is_whitespace`. -/
def isWhitespace (c : Char) : Bool :=
  c.toNat ∈ [0x20, 0x85, 0xA0, 0x1680, 0x2028, 0x2029, 0x202F, 0x205F, 0x3000] ||
    (0x09 ≤ c.toNat && c.toNat ≤ 0x0D) || (0x2000 ≤ c.toNat && c.toNat ≤ 0x200A)

/-- `str::trim`, as characters. -/
def trim (s : String) : List Char :=
  (((s.toList.dropWhile isWhitespace).reverse).dropWhile isWhitespace).reverse

/-- Whether an optional text is longer than a bound. -/
def longerThan (text : Option String) (bound : Nat) : Bool :=
  text.any fun text => bound < text.toList.length

namespace CalendarEvent

open Checks

def recomputeDuration (start : I64) (end_ : Option I64) : Int :=
  (end_.map fun end_ => max (wrapI64 (end_.val - start.val)) 0).getD 0

def computeSeriesEnd (event : CalendarEvent) : Int :=
  match event.recurrence with
  | none => (event.end_.getD event.start).val
  | some _ =>
    clampI64 (((seriesOccurrenceStarts zones event).getLast?.getD event.start.val) +
      max event.durationMs 0)

/-- The checks of a recurrence rule. -/
def validateRule (event : CalendarEvent) (rule : RecurrenceRule) : Result Unit := do
  refuseIf (¬(1 ≤ rule.interval ∧ rule.interval ≤ 52)) (.failedValidation "interval")
  refuseIf (maxOccurrences < rule.exceptions.length) (.failedValidation "exceptions")
  refuseIf (rule.byWeekday ≠ [] ∧ rule.freq ≠ .weekly) (.failedValidation "by_weekday")
  -- the weekdays must include that of the anchor
  refuseIf (rule.byWeekday ≠ [] ∧ numDaysFromMonday (dateOf (event.startLocal zones)) ∉
    rule.byWeekday.map Weekday.numFromMonday) (.failedValidation "by_weekday_anchor")
  match rule.end_ with
  | .count count => refuseIf (count < 1 ∨ maxOccurrences < count) (.failedValidation "count")
  | .until_ timestamp =>
    refuseIf (timestamp < event.start.val) (.failedValidation "until")
    refuseIf (maxOccurrences ≤ (seriesOccurrenceStarts zones event).length)
      (.failedValidation "until_range")

def validate (event : CalendarEvent) : Result Unit := do
  refuseIf (trim event.title = [] ∨ 100 < event.title.toList.length) (.failedValidation "title")
  refuseIf (zones event.timezone = none) (.failedValidation "timezone")
  refuseIf (longerThan event.description 2000) (.failedValidation "description")
  refuseIf (longerThan event.location 200) (.failedValidation "location")
  refuseIf (longerThan event.color 32) (.failedValidation "color")
  refuseIf (event.end_.any fun end_ => end_.val ≤ event.start.val) (.failedValidation "end")
  match event.recurrence with
  | none => return ()
  | some rule => event.validateRule zones rule

end CalendarEvent

structure EventDraft where
  server : String
  creator : String
  title : String
  description : Option String
  location : Option String
  start : I64
  end_ : Option I64
  allDay : Bool
  timezone : String
  recurrence : Option RecurrenceRule
  color : Option String
  channel : Option String
  sourceMessageId : Option String

/-- The event of a draft, before its last derived field. -/
def EventDraft.event (draft : EventDraft) (id : String) (nowMs : Int) : CalendarEvent where
  id := id
  server := draft.server
  channel := draft.channel
  creator := draft.creator
  title := draft.title
  description := draft.description
  location := draft.location
  start := draft.start
  end_ := draft.end_
  durationMs := CalendarEvent.recomputeDuration draft.start draft.end_
  seriesEnd := draft.start.val
  allDay := draft.allDay
  timezone := draft.timezone
  recurrence := draft.recurrence
  color := draft.color
  cancelled := false
  sourceMessageId := draft.sourceMessageId
  createdAt := nowMs

/-- `CalendarEvent::create`: the event that is inserted. -/
def CalendarEvent.create (draft : EventDraft) (id : String) (nowMs : Int) :
    Result CalendarEvent := do
  (draft.event id nowMs).validate zones
  return { draft.event id nowMs with seriesEnd := (draft.event id nowMs).computeSeriesEnd zones }

end Zones

end SlogaBackend.Calendar
