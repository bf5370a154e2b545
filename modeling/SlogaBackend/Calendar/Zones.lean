import SlogaBackend.Base
import SlogaBackend.Lib.Gregorian
import Mathlib.Tactic.Ring

/-!
# Wall-clock time

An instant is a number of milliseconds since the epoch, and so is a local date and time, a
`NaiveDateTime`: the instant at which UTC shows it. A `Zone` is what `chrono_tz` knows of a time
zone: which offset is in force at an instant, and which instants a local time stands for.

What is relied on is in `Zone.Lawful`: an instant that a local time resolves to shows that local
time, and the offsets of a zone within two days of each other differ by at most one day.
-/

namespace SlogaBackend.Calendar

open Gregorian

def dayMs : Int := 24 * 60 * 60 * 1000

def hourMs : Int := 60 * 60 * 1000

/-! ## Dates -/

/-- The years of chrono's `NaiveDate`. -/
def minYear : Int := -262143

def maxYear : Int := 262142

/-- Whether a local date and time is one of chrono's. -/
def inRange (naive : Int) : Prop :=
  monthStart (12 * minYear) * dayMs ≤ naive ∧ naive < monthStart (12 * (maxYear + 1)) * dayMs

instance (naive : Int) : Decidable (inRange naive) := inferInstanceAs (Decidable (_ ∧ _))

def checkedAddSigned (naive duration : Int) : Option Int :=
  if inRange (naive + duration) then some (naive + duration) else none

/-- The date of a local time, by its number. -/
def dateOf (naive : Int) : Int := naive / dayMs

def timeOf (naive : Int) : Int := naive % dayMs

def andTime (date time : Int) : Int := date * dayMs + time

def yearOfDate (date : Int) : Int := monthOf date / 12

def month0OfDate (date : Int) : Int := monthOf date % 12

def dayOfDate (date : Int) : Int := date - monthStart (monthOf date) + 1

/-- `num_days_from_monday`: the epoch is a Thursday. -/
def numDaysFromMonday (date : Int) : Int := (date + 3) % 7

/-- `NaiveDate::from_ymd_opt`. -/
def fromYmdOpt (year month day : Int) : Option Int :=
  if (minYear ≤ year ∧ year ≤ maxYear) ∧ (1 ≤ month ∧ month ≤ 12) ∧
      1 ≤ day ∧ day ≤ monthLength (12 * year + (month - 1)) then
    some (monthStart (12 * year + (month - 1)) + (day - 1))
  else none

def predOpt (date : Int) : Option Int :=
  if monthStart (12 * minYear) ≤ date - 1 then some (date - 1) else none

def lastDayOfMonth (year month : Int) : Int :=
  let (nextYear, nextMonth) := if month = 12 then (year + 1, 1) else (year, month + 1)
  (((fromYmdOpt nextYear nextMonth 1).bind predOpt).map dayOfDate).getD 28

/-- A month some months later: its year and its number, from 1. -/
def addMonths (year month0 add : Int) : Int × Int :=
  (year + (month0 + add) / 12, (month0 + add) % 12 + 1)

/-! ## Zones -/

/-- What a local time stands for. -/
inductive LocalResult where
  | single (instant : Int)
  | ambiguous (earliest latest : Int)
  | none

/-- An offset from UTC is less than a day, as chrono's `FixedOffset` is. -/
abbrev FixedOffset := { offset : Int // -dayMs < offset ∧ offset < dayMs }

structure Zone where
  /-- The offset in force at an instant. -/
  offset : Int → FixedOffset
  fromLocal : Int → LocalResult

namespace Zone

/-- The local time that an instant shows. -/
def localOf (zone : Zone) (instant : Int) : Int := instant + (zone.offset instant).val

/-- What the program relies on. -/
structure Lawful (zone : Zone) : Prop where
  single : ∀ {naive instant}, zone.fromLocal naive = .single instant → zone.localOf instant = naive
  ambiguous : ∀ {naive earliest latest}, zone.fromLocal naive = .ambiguous earliest latest →
    zone.localOf earliest = naive ∧ zone.localOf latest = naive ∧ earliest ≤ latest
  near : ∀ {t t'}, t ≤ t' → t' ≤ t + 2 * dayMs →
    (zone.offset t').val - (zone.offset t).val ≤ dayMs ∧
      (zone.offset t).val - (zone.offset t').val ≤ dayMs

def utc : Zone where
  offset _ := ⟨0, by decide⟩
  fromLocal naive := .single naive

theorem lawful_utc : utc.Lawful where
  single h := by
    injection h with h
    subst h
    exact Int.add_zero _
  ambiguous h := by injection h
  near _ _ := ⟨show (0 : Int) - 0 ≤ dayMs by decide, show (0 : Int) - 0 ≤ dayMs by decide⟩

end Zone

/-- A local time read with an offset, or as UTC if that is out of range. -/
def atOffset (offset : FixedOffset) (naive : Int) : Int :=
  if inRange (naive - offset.val) then naive - offset.val else naive

/-- A local time to an instant. In a gap it is read with the offset before the gap, so that it
moves forward; of two instants the earliest is taken. -/
def localToUtcMs (zone : Zone) (naive : Int) : Int :=
  match zone.fromLocal naive with
  | .single instant => instant
  | .ambiguous earliest _ => earliest
  | .none =>
    match zone.fromLocal (naive - 3 * hourMs) with
    | .single before => atOffset (zone.offset before) naive
    | .ambiguous before _ => atOffset (zone.offset before) naive
    | .none => naive

/-- Milliseconds to an instant; what chrono cannot represent becomes the epoch. -/
def msToUtc (ms : Int) : Int := if inRange ms then ms else 0

/-! ## The order of local times -/

section Order

variable {zone : Zone} (hzn : zone.Lawful)
include hzn

/-- The offsets at two instants: neither is far from the other. -/
theorem offset_near (t t' : Int) : t' ≤ t + 2 * dayMs → t ≤ t' + 2 * dayMs →
      (zone.offset t').val - (zone.offset t).val ≤ dayMs ∧
        (zone.offset t).val - (zone.offset t').val ≤ dayMs := by
  intro haft hbef
  rcases le_total t t' with hle | hle
  · exact hzn.near hle haft
  · exact (hzn.near hle hbef).symm

/-- What a local time resolves to: an instant that shows it; three hours after one that shows it
three hours earlier; or itself. -/
theorem localToUtcMs_cases (naive : Int) : zone.localOf (localToUtcMs zone naive) = naive ∨
      zone.localOf (localToUtcMs zone naive - 3 * hourMs) = naive - 3 * hourMs ∨
      localToUtcMs zone naive = naive := by
  have hgap : ∀ before, zone.localOf before = naive - 3 * hourMs →
      zone.localOf (atOffset (zone.offset before) naive - 3 * hourMs) = naive - 3 * hourMs ∨
        atOffset (zone.offset before) naive = naive := by
    intro before hbef
    unfold atOffset
    split
    · have heq : naive - (zone.offset before).val - 3 * hourMs = before := by
        unfold Zone.localOf at hbef
        omega
      rw [heq]
      exact .inl hbef
    · exact .inr rfl
  unfold localToUtcMs
  split
  · exact .inl (hzn.single ‹_›)
  · exact .inl (hzn.ambiguous ‹_›).1
  · split
    · exact .inr (hgap _ (hzn.single ‹_›))
    · exact .inr (hgap _ (hzn.ambiguous ‹_›).1)
    · exact .inr (.inr rfl)

theorem localToUtcMs_near (naive : Int) :
    naive - dayMs < localToUtcMs zone naive ∧ localToUtcMs zone naive < naive + dayMs := by
  have hoff := (zone.offset (localToUtcMs zone naive)).property
  have hoff' := (zone.offset (localToUtcMs zone naive - 3 * hourMs)).property
  rcases localToUtcMs_cases hzn naive with hshow | hshow | hsl
  · unfold Zone.localOf at hshow
    omega
  · unfold Zone.localOf at hshow
    omega
  · unfold dayMs
    omega

/-- An instant, moved on by up to three hours, does not come after what a local time at least a
day later, moved on as far, resolves to. -/
theorem le_localToUtcMs_of_day {t moved naive : Int} (hmov : 0 ≤ moved ∧ moved ≤ 3 * hourMs)
    (hday : zone.localOf t + moved + dayMs ≤ naive) : t + moved ≤ localToUtcMs zone naive := by
  have hnr := offset_near hzn t (localToUtcMs zone naive)
  have hnr' := offset_near hzn t (localToUtcMs zone naive - 3 * hourMs)
  have hoff := (zone.offset t).property
  have hoff' := (zone.offset (localToUtcMs zone naive)).property
  have hoff'' := (zone.offset (localToUtcMs zone naive - 3 * hourMs)).property
  have hcas := localToUtcMs_cases hzn naive
  unfold Zone.localOf at hcas hday
  unfold dayMs hourMs at *
  rcases hcas with hshow | hshow | hsl
  · omega
  · omega
  · omega

/-- **Days later is not earlier.** Local times at least a day apart resolve in their order. -/
theorem localToUtcMs_mono {naive naive' : Int} (hday : naive + dayMs ≤ naive') :
    localToUtcMs zone naive ≤ localToUtcMs zone naive' := by
  have hthreeHours : 0 ≤ 3 * hourMs := by decide
  rcases localToUtcMs_cases hzn naive with hshow | hshow | hsl
  · have hle := le_localToUtcMs_of_day hzn ⟨le_refl 0, hthreeHours⟩
      (show zone.localOf (localToUtcMs zone naive) + 0 + dayMs ≤ naive' by omega)
    omega
  · have hle := le_localToUtcMs_of_day hzn ⟨hthreeHours, le_refl _⟩
      (show zone.localOf (localToUtcMs zone naive - 3 * hourMs) + 3 * hourMs + dayMs ≤ naive' by
        omega)
    omega
  · have hnr := (localToUtcMs_near hzn naive').1
    omega

end Order

/-! ## A zone whose clocks go back -/

/-- 1 November 2026, 06:00 UTC: the clocks of New York go back from two o'clock to one. -/
def clocksGoBack : Int := 1793512800000

/-- The zone of New York in the year around that moment. -/
def newYork : Zone where
  offset instant :=
    if instant < clocksGoBack then ⟨-4 * hourMs, by decide⟩ else ⟨-5 * hourMs, by decide⟩
  fromLocal naive :=
    if naive + 4 * hourMs < clocksGoBack then
      if clocksGoBack ≤ naive + 5 * hourMs then
        .ambiguous (naive + 4 * hourMs) (naive + 5 * hourMs)
      else .single (naive + 4 * hourMs)
    else .single (naive + 5 * hourMs)

variable {instant : Int}

theorem newYork_localOf_summer (hsum : instant < clocksGoBack) :
    newYork.localOf instant = instant - 4 * hourMs := by
  unfold Zone.localOf newYork
  dsimp only
  rw [if_pos hsum]
  ring

theorem newYork_localOf_winter (hwin : ¬instant < clocksGoBack) :
    newYork.localOf instant = instant - 5 * hourMs := by
  unfold Zone.localOf newYork
  dsimp only
  rw [if_neg hwin]
  ring

theorem newYork_lawful : newYork.Lawful where
  single {naive instant} hsin := by
    unfold newYork at hsin
    dsimp only at hsin
    split at hsin
    · split at hsin
      · cases hsin
      · injection hsin with heq
        rw [newYork_localOf_summer (by omega)]
        omega
    · have hhr : 0 < hourMs := by decide
      injection hsin with heq
      rw [newYork_localOf_winter (by omega)]
      omega
  ambiguous {naive earliest latest} hamb := by
    unfold newYork at hamb
    dsimp only at hamb
    split at hamb
    · split at hamb
      · injection hamb with hear hlat
        rw [newYork_localOf_summer (by omega), newYork_localOf_winter (by omega)]
        omega
      · cases hamb
    · cases hamb
  near {t t'} _ _ := by
    have hoff : ∀ t, (newYork.offset t).val = -4 * hourMs ∨
        (newYork.offset t).val = -5 * hourMs := by
      intro t
      unfold newYork
      dsimp only
      split
      · exact .inl rfl
      · exact .inr rfl
    have hday : hourMs ≤ dayMs := by decide
    have hhr : 0 < hourMs := by decide
    have := hoff t
    have := hoff t'
    omega

end SlogaBackend.Calendar
