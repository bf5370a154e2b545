import SlogaBackend.Calendar.Reminders
import SlogaBackend.Calendar.Edits

/-!
# Reminders fire exactly once

The candidate window of the store takes an event if its stored start is at most half an hour
ahead of the scan. That is right as long as no occurrence lies before the stored start. A series
resolves its first occurrence anew from the wall clock, however: an event that is created in the
second pass of a repeated hour has its first occurrence in the first pass, before its start, and
is not among the candidates when that occurrence is due.

* `FiresOnce`: what reminders are to do.
* `CalendarEvent.Remindable`: when they do.
* `fires_once_iff`: the two are the same, for every stored event that is not cancelled.
-/

namespace SlogaBackend.Calendar

open Enumeration

/-! ## What reminders are to do -/

/-- A scan for each reminder, at most one push under a key, exactly one where every call is
answered, and no reminder out of its time. -/
structure FiresOnce (zones : String → Option Zone) (event : CalendarEvent) : Prop where
  found : ∀ {ticks : List Tick}, Scans event ticks → ∀ {first last : Tick},
    ticks.head? = some first → ticks.getLast? = some last → ∀ {occurrence offset : Int},
      event.HasReminder zones occurrence offset → first.now.val < occurrence - offset →
        occurrence - offset ≤ last.now.val → ∃ tick ∈ ticks, event ∈ tick.candidates ∧
          (occurrence, offset) ∈ remindersDueForEvent zones event tick.now.val
  atMostOnce : ∀ {ticks : List Tick}, Scans event ticks → ∀ {key : ReminderSentKey},
    key.event = event.id → ∀ {reminders : Reminders}, reminders.times key = 0 →
      (runScans zones ticks reminders).times key ≤ 1
  exactlyOnce : ∀ {ticks : List Tick}, Scans event ticks → ∀ {first last : Tick},
    ticks.head? = some first → ticks.getLast? = some last → ∀ {occurrence offset : Int},
      event.HasReminder zones occurrence offset → first.now.val < occurrence - offset →
        occurrence - offset ≤ last.now.val → ∀ {user : String},
          (∀ tick ∈ ticks, Delivers event ⟨event.id, user, occurrence, offset⟩ tick) →
            (runScans zones ticks Outbox.empty).times ⟨event.id, user, occurrence, offset⟩ = 1
  inTime : ∀ {ticks : List Tick}, Scans event ticks → ∀ tick ∈ ticks, ∀ {occurrence offset : Int},
    (occurrence, offset) ∈ remindersDueForEvent zones event tick.now.val →
      occurrence - offset ≤ tick.now.val ∧ tick.now.val < occurrence - offset + reminderGraceMs

/-! ## When they do -/

namespace CalendarEvent

/-- An occurrence that the window of a scan does not miss: it is skipped, or the start of the
event is no further ahead than the window reaches when a reminder of it fires. The clock never
reads 0 or less after another time, so a reminder before the epoch is no matter. -/
def OnTime (event : CalendarEvent) (occurrence : Int) : Prop :=
  occurrence ∈ event.exceptionSet ∨ ∀ offset ∈ event.leadOffsets, offset < occurrence →
    event.start.val ≤ occurrence - offset + maxOffset reminderOffsetsMs

/-- An event whose reminders fire once. One that does not recur keeps half an hour from the
limits of an `i64`, or so; of one that recurs the first occurrence is on time, and all of them
where the start is a time that chrono cannot represent. -/
def Remindable (zones : String → Option Zone) (event : CalendarEvent) : Prop :=
  match event.recurrence with
  | none =>
    minI64 + maxOffset event.leadOffsets ≤ event.start.val ∧
      event.start.val + reminderGraceMs + maxOffset reminderOffsetsMs ≤ maxI64 + 1
  | some _ =>
    if inRange event.start.val then
      ∀ first, (seriesOccurrenceStarts zones event).head? = some first → event.OnTime first
    else ∀ occurrence ∈ seriesOccurrenceStarts zones event, event.OnTime occurrence

/-- The same for one reminder: it is an `i64`, and the window of a scan that comes in time
reaches the start of the event. -/
def InReach (event : CalendarEvent) (occurrence offset : Int) : Prop :=
  minI64 ≤ occurrence - offset ∧ (0 < occurrence - offset →
    event.start.val ≤ occurrence - offset + maxOffset reminderOffsetsMs ∧
      occurrence - offset + reminderGraceMs + maxOffset reminderOffsetsMs ≤ maxI64 + 1)

end CalendarEvent

section Reach

variable {zones : String → Option Zone} {event : CalendarEvent} (hzone : (event.zone zones).Lawful)
include hzone

variable {rule : RecurrenceRule}

theorem inReach_iff_of_recurs (hrl : event.recurrence = some rule) {occurrence offset : Int}
    (hreminder : event.HasReminder zones occurrence offset) :
    event.InReach occurrence offset ↔ (offset < occurrence →
      event.start.val ≤ occurrence - offset + maxOffset reminderOffsetsMs) := by
  have hft := occurrence_fits hzone hrl hreminder.1
  have hoff := leadOffsets_range hreminder.2.2
  have hmax : maxOffset reminderOffsetsMs + reminderGraceMs ≤ 1000 * dayMs := by decide
  have hgrac : 0 ≤ reminderGraceMs := by decide
  constructor
  · intro hreach hpos
    exact (hreach.2 (by omega)).1
  · intro hstar
    exact ⟨by omega, fun hpos => ⟨hstar (by omega), by omega⟩⟩

omit hzone in
theorem onTime_of_start_le {occurrence : Int} (hle : event.start.val ≤ occurrence) :
    event.OnTime occurrence := by
  refine .inr fun offset hoff _ => ?_
  have hran := leadOffsets_range hoff
  omega

theorem onTime_iff (hrl : event.recurrence = some rule) {occurrence : Int}
    (hocc : occurrence ∈ seriesOccurrenceStarts zones event) :
    event.OnTime occurrence ↔ ∀ {offset : Int}, event.HasReminder zones occurrence offset →
      event.InReach occurrence offset := by
  constructor
  · intro honTime offset hreminder
    exact (inReach_iff_of_recurs hzone hrl hreminder).mpr
      (honTime.resolve_left hreminder.2.1 offset hreminder.2.2)
  · intro hreach
    by_cases hsk : occurrence ∈ event.exceptionSet
    · exact .inl hsk
    · refine .inr fun offset hoff => ?_
      have hreminder : event.HasReminder zones occurrence offset := ⟨hocc, hsk, hoff⟩
      exact (inReach_iff_of_recurs hzone hrl hreminder).mp (hreach hreminder)

omit hzone in
theorem inReach_iff_of_none (hno : event.recurrence = none) :
    (minI64 + maxOffset event.leadOffsets ≤ event.start.val ∧
        event.start.val + reminderGraceMs + maxOffset reminderOffsetsMs ≤ maxI64 + 1) ↔
      ∀ {occurrence offset : Int}, event.HasReminder zones occurrence offset →
        event.InReach occurrence offset := by
  have hstar := event.start.property
  have hsk : event.start.val ∉ event.exceptionSet := by
    unfold CalendarEvent.exceptionSet
    rw [hno]
    exact not_mem_nil
  constructor
  · rintro ⟨hmin, hmax⟩ occurrence offset ⟨hocc, -, hoff⟩
    rw [seriesOccurrenceStarts_of_none hno] at hocc
    rw [mem_singleton.mp hocc]
    have hran := leadOffsets_range hoff
    exact ⟨by omega, fun _ => ⟨by omega, by omega⟩⟩
  · intro hreach
    have hreac : ∀ offset ∈ event.leadOffsets, event.InReach event.start.val offset :=
      fun offset hoff => hreach ⟨by
        rw [seriesOccurrenceStarts_of_none hno]
        exact List.mem_singleton_self _, hsk, hoff⟩
    have hatStart := (hreac 0 (zero_mem_leadOffsets event)).2
    have hld := (hreac _ (maxOffset_mem_leadOffsets event)).1
    have hep : reminderGraceMs + maxOffset reminderOffsetsMs ≤ maxI64 := by decide
    refine ⟨by omega, ?_⟩
    by_cases hpos : 0 < event.start.val
    · have hft := (hatStart (by omega)).2
      omega
    · omega

theorem remindable_iff : event.Remindable zones ↔ ∀ {occurrence offset : Int},
    event.HasReminder zones occurrence offset → event.InReach occurrence offset := by
  unfold CalendarEvent.Remindable
  cases hrl : event.recurrence with
  | none => exact inReach_iff_of_none hrl
  | some rule =>
    rw [forall_starts_iff hzone fun _ => onTime_of_start_le]
    constructor
    · intro honTime occurrence offset hreminder
      exact (onTime_iff hzone hrl hreminder.1).mp (honTime _ hreminder.1) hreminder
    · intro hreach occurrence hocc
      exact (onTime_iff hzone hrl hocc).mpr hreach

end Reach

/-! ## In reach, they do -/

section InReach

variable {zones : String → Option Zone} {event : CalendarEvent}
  (hzone : (event.zone zones).Lawful) (huncancelled : event.cancelled = false)
  (hreach : ∀ {occurrence offset : Int}, event.HasReminder zones occurrence offset →
    event.InReach occurrence offset)
include hzone huncancelled hreach

omit huncancelled in
theorem wrapI64_trigger {occurrence offset : Int}
    (hreminder : event.HasReminder zones occurrence offset) :
    wrapI64 (occurrence - offset) = occurrence - offset := by
  have hocc := occurrence_i64 hzone hreminder.1
  have hoff := leadOffsets_range hreminder.2.2
  exact wrapI64_of_fits (hreach hreminder).1 (by omega)

theorem inTime_of_inReach : InTime zones event := by
  intro now occurrence offset hdue
  obtain ⟨hreminder, -, hlt, hear⟩ := (mem_remindersDueForEvent hzone huncancelled).mp hdue
  rw [wrapI64_trigger hzone hreach hreminder, wrapI64_clock_sub now (by decide) (by decide)] at hear
  rw [wrapI64_trigger hzone hreach hreminder] at hlt
  omega

/-- A scan that comes at the trigger of a reminder, or less than the grace later, finds it. -/
theorem found_of_inReach (hsto : event.Stored zones) {tick : Tick}
    (htc : tick.events.findOne event.id = some event) {occurrence offset : Int}
    (hreminder : event.HasReminder zones occurrence offset) (hpos : 0 < occurrence - offset)
    (hlt : occurrence - offset ≤ tick.now.val)
    (hear : tick.now.val < occurrence - offset + reminderGraceMs) : event ∈ tick.candidates ∧
      (occurrence, offset) ∈ remindersDueForEvent zones event tick.now.val := by
  obtain ⟨hstar, hmax⟩ := (hreach hreminder).2 hpos
  have hoff := leadOffsets_range hreminder.2.2
  have hmin : minI64 ≤ 0 := by decide
  have hbc := wrapI64_clock_sub tick.now (show 0 ≤ reminderGraceMs by decide) (by decide)
  have hahe : wrapI64 (tick.now.val + maxOffset reminderOffsetsMs) =
      tick.now.val + maxOffset reminderOffsetsMs := wrapI64_of_fits (by omega) (by omega)
  have hboun : wrapI64 (tick.now.val + maxOffset event.leadOffsets) =
      tick.now.val + maxOffset event.leadOffsets := wrapI64_of_fits (by omega) (by omega)
  constructor
  · have hend := le_computeSeriesEnd hzone (fun _ => hsto.start_lt_end) hreminder.1
    rw [← hsto.seriesEnd] at hend
    refine mem_filter.mpr ⟨mem_values_of_get htc, ?_⟩
    rw [huncancelled, hahe, hbc]
    simp
    omega
  · rw [mem_remindersDueForEvent hzone huncancelled,
      wrapI64_trigger hzone hreach hreminder, hboun, hbc]
    exact ⟨hreminder, by omega, hlt, by omega⟩

theorem firesOnce_of_inReach (hsto : event.Stored zones) : FiresOnce zones event := by
  have hinTime := inTime_of_inReach hzone huncancelled hreach
  have hfnd : ∀ {ticks : List Tick}, Scans event ticks → ∀ {first last : Tick},
      ticks.head? = some first → ticks.getLast? = some last → ∀ {occurrence offset : Int},
        event.HasReminder zones occurrence offset → first.now.val < occurrence - offset →
          occurrence - offset ≤ last.now.val → ∃ tick ∈ ticks, event ∈ tick.candidates ∧
            (occurrence, offset) ∈ remindersDueForEvent zones event tick.now.val := by
    intro ticks hscan first last hfst hls occurrence offset hreminder hbef hpas
    have htic : ticks = first :: ticks.tail := (List.cons_head?_tail hfst).symm
    have hgp := hscan.gaps
    have hmemLast := List.mem_of_getLast? hls
    rw [htic] at hgp hmemLast
    obtain ⟨tick, hmem, hlt, hear⟩ := exists_landing hgp hbef ⟨last, hmemLast, hpas⟩
    rw [← htic] at hmem
    exact ⟨tick, hmem, found_of_inReach hzone huncancelled hreach hsto
      (hscan.stored tick hmem) hreminder (by have := first.now.property; omega) hlt hear⟩
  have hatMostOnce : ∀ {ticks : List Tick}, Scans event ticks → ∀ {key : ReminderSentKey},
      key.event = event.id → ∀ {reminders : Reminders}, reminders.times key = 0 →
        (runScans zones ticks reminders).times key ≤ 1 :=
    fun hscan _ hkey _ hno => times_runScans_le hinTime huncancelled hzone hkey hscan hno
  refine ⟨hfnd, hatMostOnce, ?_, fun _ tick _ => hinTime tick.now⟩
  intro ticks hscan first last hfst hls occurrence offset hreminder hbef hpas user hdel
  have hsn := times_runScans_pos rfl hdel (hfnd hscan hfst hls hreminder hbef hpas)
    (show Outbox.Honest _ Outbox.empty from nofun)
  have hon : (runScans zones ticks Outbox.empty).times
      ⟨event.id, user, occurrence, offset⟩ ≤ 1 := hatMostOnce hscan rfl rfl
  omega

end InReach

/-! ## Out of reach, they do not -/

/-- A scan of a store that holds one event. -/
def scanAt (event : CalendarEvent) (now : ClockMs) : Tick where
  now := now
  events := Collection.empty.put event
  rsvps := []
  isMember _ _ := true
  fetched := true
  rsvpsFetched _ := true
  mark _ := .answered
  sweep := .answered

theorem scanAt_stored (event : CalendarEvent) (now : ClockMs) :
    (scanAt event now).events.findOne event.id = some event := by
  unfold scanAt
  rw [Collection.findOne_put, if_pos rfl]

theorem scans_pair (event : CalendarEvent) {now now' : ClockMs} (hlat : now.val < now'.val)
    (hgap : now'.val ≤ now.val + reminderGraceMs) :
    Scans event [scanAt event now, scanAt event now'] where
  stored tick hmem := by
    rcases mem_cons.mp hmem with rfl | hmem
    · exact scanAt_stored event now
    · rw [mem_singleton.mp hmem]
      exact scanAt_stored event now'
  gaps := List.isChain_cons_cons.mpr ⟨⟨hlat, hgap⟩, List.IsChain.singleton _⟩

section OutOfReach

variable {zones : String → Option Zone} {event : CalendarEvent}
  (hzone : (event.zone zones).Lawful) (huncancelled : event.cancelled = false)
  (hfires : FiresOnce zones event) {occurrence offset : Int}
  (hreminder : event.HasReminder zones occurrence offset)
include hzone huncancelled hfires hreminder

theorem trigger_fits_of_firesOnce : minI64 ≤ occurrence - offset := by
  by_contra hlow
  have hocc := occurrence_i64 hzone hreminder.1
  have hoff := leadOffsets_range hreminder.2.2
  have hmax : maxOffset reminderOffsetsMs = 1800000 := by decide
  have hgrac : reminderGraceMs = 300000 := rfl
  obtain ⟨now, hnow⟩ : ∃ now : ClockMs, now.val = occurrence - offset + 18446744073709551616 :=
    ⟨⟨_, by unfold minI64 maxI64 at *; omega⟩, rfl⟩
  have htrig : wrapI64 (occurrence - offset) = now.val := by
    unfold wrapI64 minI64 at *
    omega
  have hboun : occurrence ≤ wrapI64 (now.val + maxOffset event.leadOffsets) := by
    unfold wrapI64 minI64 maxI64 at *
    omega
  have hbc := wrapI64_clock_sub now (show 0 ≤ reminderGraceMs by decide) (by decide)
  have hdue : (occurrence, offset) ∈ remindersDueForEvent zones event now.val := by
    rw [mem_remindersDueForEvent hzone huncancelled, htrig, hbc]
    exact ⟨hreminder, hboun, le_refl _, by omega⟩
  have hscan : Scans event [scanAt event now] :=
    ⟨fun tick hmem => mem_singleton.mp hmem ▸ scanAt_stored event now,
      List.IsChain.singleton _⟩
  have hlt := (hfires.inTime hscan _ mem_cons_self hdue).2
  have hcloc : (scanAt event now).now = now := rfl
  rw [hcloc] at hlt
  omega

/-- Two scans, the first just before a reminder fires: the second has the event in its window. -/
theorem window_of_firesOnce (hpos : 0 < occurrence - offset) {now : ClockMs}
    (hlt : occurrence - offset ≤ now.val) (hear : now.val < occurrence - offset + reminderGraceMs) :
    event.start.val ≤ wrapI64 (now.val + maxOffset reminderOffsetsMs) := by
  have htrig : wrapI64 (occurrence - offset) = occurrence - offset :=
    wrapI64_of_fits (trigger_fits_of_firesOnce hzone huncancelled hfires hreminder) (by omega)
  obtain ⟨before, hbef⟩ : ∃ before : ClockMs, before.val = occurrence - offset - 1 :=
    ⟨⟨_, by omega⟩, rfl⟩
  have hscan : Scans event [scanAt event before, scanAt event now] :=
    scans_pair event (by omega) (by omega)
  obtain ⟨tick, hmem, hcan, hdue⟩ := hfires.found hscan rfl rfl hreminder
    (show before.val < occurrence - offset by omega) hlt
  rcases mem_cons.mp hmem with rfl | hmem
  · have hnotYet := ((mem_remindersDueForEvent hzone huncancelled).mp hdue).2.2.1
    rw [htrig] at hnotYet
    exact absurd hnotYet (by show ¬occurrence - offset ≤ before.val; omega)
  · rw [mem_singleton.mp hmem] at hcan
    have hwin := (mem_filter.mp hcan).2
    simp only [and_eq_true, decide_eq_true_eq] at hwin
    exact hwin.1.2

theorem inReach_of_firesOnce : event.InReach occurrence offset := by
  have hocc := occurrence_i64 hzone hreminder.1
  have hoff := leadOffsets_range hreminder.2.2
  have hgrac : 0 < reminderGraceMs := by decide
  have hwin : 0 < occurrence - offset → ∀ now : ClockMs, occurrence - offset ≤ now.val →
      now.val < occurrence - offset + reminderGraceMs →
        event.start.val ≤ wrapI64 (now.val + maxOffset reminderOffsetsMs) :=
    fun hpos _ => window_of_firesOnce hzone huncancelled hfires hreminder hpos
  refine ⟨trigger_fits_of_firesOnce hzone huncancelled hfires hreminder, fun hpos => ?_⟩
  cases hrl : event.recurrence with
  | some rule =>
    have hft := occurrence_fits hzone hrl hreminder.1
    have hday : maxOffset reminderOffsetsMs + reminderGraceMs ≤ 1000 * dayMs := by decide
    obtain ⟨now, hnow⟩ : ∃ now : ClockMs, now.val = occurrence - offset := ⟨⟨_, by omega⟩, rfl⟩
    have hstar := hwin hpos now (by omega) (by omega)
    rw [wrapI64_of_fits (by omega) (by omega), hnow] at hstar
    exact ⟨hstar, by omega⟩
  | none =>
    have hoccEq : occurrence = event.start.val := by
      have hmem := hreminder.1
      rw [seriesOccurrenceStarts_of_none hrl] at hmem
      exact mem_singleton.mp hmem
    by_contra hps
    -- the last moment for the reminder, or the last one of the clock
    obtain ⟨now, hnow⟩ : ∃ now : ClockMs,
        now.val = min (occurrence - offset + reminderGraceMs - 1) maxI64 :=
      ⟨⟨_, by omega⟩, rfl⟩
    have hstar := hwin hpos now (by omega) (by omega)
    have hmax : maxOffset reminderOffsetsMs = 1800000 := by decide
    have hwr : wrapI64 (now.val + maxOffset reminderOffsetsMs) < 0 := by
      unfold wrapI64 minI64 maxI64 at *
      omega
    omega

end OutOfReach

/-! ## The theorem -/

/-- **Reminders fire exactly once** for the events that are remindable, and for no other stored
event. -/
theorem fires_once_iff {zones : String → Option Zone}
    (hzones : ∀ name zone, zones name = some zone → zone.Lawful) {event : CalendarEvent}
    (hstored : event.Stored zones) (huncancelled : event.cancelled = false) :
    FiresOnce zones event ↔ event.Remindable zones := by
  have hzone := CalendarEvent.zone_lawful hzones event
  rw [remindable_iff hzone]
  constructor
  · intro hfires occurrence offset hreminder
    exact inReach_of_firesOnce hzone huncancelled hfires hreminder
  · intro hreach
    exact firesOnce_of_inReach hzone huncancelled hreach hstored

/-! ## The second pass of a repeated hour -/

/-- The first occurrence of that event is an hour before its start; no scan finds its reminders. -/
theorem reminder_missed_in_second_pass : ¬∀ (zones : String → Option Zone) (event : CalendarEvent),
    (∀ name zone, zones name = some zone → zone.Lawful) → event.Stored zones →
      event.cancelled = false → FiresOnce zones event := by
  intro hall
  have hfires := hall someZones (dailyEvent secondPass) someZones_lawful secondPass_saved.stored rfl
  have hreminder : (dailyEvent secondPass).HasReminder someZones (secondPass.val - hourMs) 0 := by
    unfold CalendarEvent.HasReminder
    decide
  have hzone : ((dailyEvent secondPass).zone someZones).Lawful := newYork_lawful
  have hreach := inReach_of_firesOnce hzone rfl hfires hreminder
  have hpast := (hreach.2 (by decide)).1
  exact absurd hpast (by decide)

instance (event : CalendarEvent) (occurrence : Int) : Decidable (event.OnTime occurrence) :=
  inferInstanceAs (Decidable (_ ∨ _))

/-- An event of the first pass is reminded of. -/
theorem fires_once_iff_first_pass : FiresOnce someZones (dailyEvent firstPass) := by
  refine (fires_once_iff someZones_lawful firstPass_saved.stored rfl).mpr ?_
  have hfirst : ∀ first, (seriesOccurrenceStarts someZones (dailyEvent firstPass)).head? =
      some first → (dailyEvent firstPass).OnTime first := by
    intro first hhead
    injection hhead with hhead
    subst hhead
    decide
  have hrange : inRange (dailyEvent firstPass).start.val := by decide
  unfold CalendarEvent.Remindable
  split
  · rename_i hnone
    cases hnone
  · rw [if_pos hrange]
    exact hfirst

end SlogaBackend.Calendar
