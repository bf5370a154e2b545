import SlogaBackend.Calendar.Expansion

/-!
# Edits of events

The single edit path: fields are removed and set, the derived fields are computed anew, the skipped
occurrences are forgotten if the times of the event may have changed, and the event is validated.

* `CalendarEvent.Saved`: how an event comes to be as it is in the store.
* `CalendarEvent.Stored`: what holds of every such event, `Saved.stored`.
-/

namespace SlogaBackend.Calendar

open Checks

/-- The fields that an edit can unset. -/
inductive FieldsCalendarEvent where
  | channel
  | description
  | location
  | end_
  | recurrence
  | color
  | sourceMessageId
  deriving DecidableEq

/-- The fields that an edit can set, and the flag that a cancellation sets. -/
structure PartialCalendarEvent where
  channel : Option String := none
  title : Option String := none
  description : Option String := none
  location : Option String := none
  start : Option I64 := none
  end_ : Option I64 := none
  allDay : Option Bool := none
  timezone : Option String := none
  recurrence : Option RecurrenceRule := none
  color : Option String := none
  cancelled : Option Bool := none

namespace CalendarEvent

def removeField (event : CalendarEvent) : FieldsCalendarEvent → CalendarEvent
  | .channel => { event with channel := none }
  | .description => { event with description := none }
  | .location => { event with location := none }
  | .end_ => { event with end_ := none }
  | .recurrence => { event with recurrence := none }
  | .color => { event with color := none }
  | .sourceMessageId => { event with sourceMessageId := none }

/-- What is set overwrites, what is not stays. -/
def applyOptions (event : CalendarEvent) (partial_ : PartialCalendarEvent) : CalendarEvent :=
  { event with
    channel := partial_.channel.or event.channel
    title := partial_.title.getD event.title
    description := partial_.description.or event.description
    location := partial_.location.or event.location
    start := partial_.start.getD event.start
    end_ := partial_.end_.or event.end_
    allDay := partial_.allDay.getD event.allDay
    timezone := partial_.timezone.getD event.timezone
    recurrence := partial_.recurrence.or event.recurrence
    color := partial_.color.or event.color
    cancelled := partial_.cancelled.getD event.cancelled }

/-- Whether an edit touches what the occurrences are computed from. -/
def timeAffecting (partial_ : PartialCalendarEvent) (remove : List FieldsCalendarEvent) : Bool :=
  partial_.start.isSome || partial_.end_.isSome || partial_.timezone.isSome ||
    partial_.recurrence.isSome || remove.any fun field => field = .end_ ∨ field = .recurrence

/-- `exceptions.clear()`. -/
def clearExceptions (event : CalendarEvent) : CalendarEvent :=
  { event with recurrence := event.recurrence.map fun rule => { rule with exceptions := [] } }

/-- `CalendarEvent::edit`: the event that replaces the stored one. -/
def edit (zones : String → Option Zone) (event : CalendarEvent)
    (partial_ : PartialCalendarEvent) (remove : List FieldsCalendarEvent) :
    Result CalendarEvent := do
  let event := remove.foldl removeField event
  let event := event.applyOptions partial_
  let event := { event with durationMs := recomputeDuration event.start event.end_ }
  let event := if timeAffecting partial_ remove then event.clearExceptions else event
  let event := { event with seriesEnd := event.computeSeriesEnd zones }
  event.validate zones
  return event

/-- `update_event`, as the cancellation uses it. -/
def cancel (event : CalendarEvent) : CalendarEvent := event.applyOptions { cancelled := some true }

end CalendarEvent

/-! ## What is stored -/

section Stored

variable (zones : String → Option Zone)

/-- A valid event whose derived fields are up to date. -/
structure CalendarEvent.Stored (event : CalendarEvent) : Prop where
  valid : event.validate zones = .ok ()
  duration : event.durationMs = CalendarEvent.recomputeDuration event.start event.end_
  seriesEnd : event.seriesEnd = event.computeSeriesEnd zones

/-- An event that has been created, edited and cancelled. -/
inductive CalendarEvent.Saved : CalendarEvent → Prop
  | created {draft : EventDraft} {id : String} {nowMs : Int} {event : CalendarEvent} :
    CalendarEvent.create zones draft id nowMs = .ok event → Saved event
  | edited {event event' : CalendarEvent} {partial_ : PartialCalendarEvent}
    {remove : List FieldsCalendarEvent} :
    Saved event → event.edit zones partial_ remove = .ok event' → Saved event'
  | cancelled {event : CalendarEvent} : Saved event → Saved event.cancel

variable {zones} {event event' : CalendarEvent}

theorem create_stored {draft : EventDraft} {id : String} {nowMs : Int}
    (hcr : CalendarEvent.create zones draft id nowMs = .ok event) : event.Stored zones := by
  unfold CalendarEvent.create at hcr
  simp only [bind_eq_ok, pure_eq_ok] at hcr
  obtain ⟨_, hval, rfl⟩ := hcr
  exact ⟨hval, rfl, rfl⟩

theorem edit_stored {partial_ : PartialCalendarEvent} {remove : List FieldsCalendarEvent}
    (hed : event.edit zones partial_ remove = .ok event') : event'.Stored zones := by
  unfold CalendarEvent.edit at hed
  simp only [bind_eq_ok, pure_eq_ok] at hed
  obtain ⟨_, hval, rfl⟩ := hed
  refine ⟨hval, ?_, rfl⟩
  split
  · rfl
  · rfl

theorem cancel_stored (hsto : event.Stored zones) : event.cancel.Stored zones :=
  ⟨hsto.valid, hsto.duration, hsto.seriesEnd⟩

theorem CalendarEvent.Saved.stored (hsav : event.Saved zones) : event.Stored zones := by
  induction hsav with
  | created hcr => exact create_stored hcr
  | edited _ hed _ => exact edit_stored hed
  | cancelled _ ih => exact cancel_stored ih

theorem CalendarEvent.Stored.start_lt_end (hsto : event.Stored zones) {end_ : I64}
    (hend : event.end_ = some end_) : event.start.val < end_.val := by
  have hval := hsto.valid
  unfold CalendarEvent.validate at hval
  simp only [bind_eq_ok, refuseIf_eq_ok] at hval
  obtain ⟨-, -, -, -, -, -, -, -, -, -, -, hend', -⟩ := hval
  rw [hend] at hend'
  simpa using hend'

end Stored

/-! ## Events in a repeated hour -/

/-- The zones of the two names. -/
def someZones (name : String) : Option Zone :=
  if name = "America/New_York" then some newYork
  else if name = "UTC" then some Zone.utc
  else none

theorem someZones_lawful (name : String) (zone : Zone) (hzn : someZones name = some zone) :
    zone.Lawful := by
  unfold someZones at hzn
  split at hzn
  · injection hzn with heq
    exact heq ▸ newYork_lawful
  · split at hzn
    · injection hzn with heq
      exact heq ▸ Zone.lawful_utc
    · cases hzn

/-- A daily event, twice, that starts at a given instant in New York. -/
def dailyDraft (start : I64) : EventDraft where
  server := "S"
  creator := "A"
  title := "Late shift"
  description := none
  location := none
  start := start
  end_ := none
  allDay := false
  timezone := "America/New_York"
  recurrence := some
    { freq := .daily
      interval := 1
      byWeekday := []
      end_ := .count 2
      exceptions := [] }
  color := none
  channel := none
  sourceMessageId := none

def dailyEvent (start : I64) : CalendarEvent :=
  { (dailyDraft start).event "E" 0 with
    seriesEnd := ((dailyDraft start).event "E" 0).computeSeriesEnd someZones }

/-- Half past one, for the second time that night. -/
def secondPass : I64 := ⟨clocksGoBack + 1800000, by decide⟩

theorem secondPass_saved : (dailyEvent secondPass).Saved someZones := by
  have hcr : CalendarEvent.create someZones (dailyDraft secondPass) "E" 0 =
      .ok (dailyEvent secondPass) := by decide
  exact .created hcr

/-- Half past one, for the first time. -/
def firstPass : I64 := ⟨clocksGoBack - 1800000, by decide⟩

theorem firstPass_saved : (dailyEvent firstPass).Saved someZones := by
  have hcr : CalendarEvent.create someZones (dailyDraft firstPass) "E" 0 =
      .ok (dailyEvent firstPass) := by decide
  exact .created hcr

end SlogaBackend.Calendar
