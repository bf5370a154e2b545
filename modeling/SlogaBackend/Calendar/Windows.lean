import SlogaBackend.Calendar.Edits

/-!
# The calendar window

A calendar view asks the store for the events of a server that may have an occurrence in a window
of time, by their stored start and the stored end of their series, and expands each within the
window.

The duration is a difference of two `i64`, which can overflow, and the start that is stored need
not be the first occurrence: that one is resolved anew from the wall clock. Where neither happens,
and the last occurrence ends within the range of an `i64`, no event is missed (`complete_iff`).
-/

namespace SlogaBackend.Calendar

def fetchEventsForServerInWindow (events : Events) (server : String) (from_ to_ : I64) :
    List CalendarEvent :=
  events.rows.values.filter fun event =>
    event.server = server && event.start.val ≤ to_.val && from_.val ≤ event.seriesEnd

def occurrencesInWindow (zones : String → Option Zone) (event : CalendarEvent) (from_ to_ : I64) :
    List Int :=
  let duration := max event.durationMs 0
  ((seriesOccurrenceStartsBounded zones event (some to_.val)).filter fun occ =>
    occ ∉ event.exceptionSet).filter fun occ =>
      occ ≤ to_.val && from_.val ≤ clampI64 (occ + duration)

/-! ## The expansion -/

theorem length_starts_le (zones : String → Option Zone) (event : CalendarEvent) :
    (seriesOccurrenceStarts zones event).length ≤ maxOccurrences := by
  cases hrl : event.recurrence with
  | none =>
    rw [seriesOccurrenceStarts_of_none hrl, length_singleton]
    decide
  | some rule =>
    have hcap : rule.countCap ≤ maxOccurrences := by
      unfold RecurrenceRule.countCap
      cases rule.end_ with
      | count count => exact Nat.min_le_right _ _
      | until_ timestamp => exact le_refl _
    unfold seriesOccurrenceStarts
    rw [seriesOccurrenceStartsBounded_eq_collect zones hrl, Enumeration.collect_nil_eq]
    exact (List.takeWhile_sublist _).length_le.trans ((List.length_take_le _ _).trans hcap)

/-- **The expansion up to a bound is the whole expansion, filtered**, and that one is sorted and
capped. -/
theorem expansion_spec (zones : String → Option Zone) (event : CalendarEvent)
    (hzone : (event.zone zones).Lawful) :
    (seriesOccurrenceStarts zones event).Pairwise (· ≤ ·) ∧
      (seriesOccurrenceStarts zones event).length ≤ maxOccurrences ∧
      ∀ bound, seriesOccurrenceStartsBounded zones event (some bound) =
        (seriesOccurrenceStarts zones event).filter fun occ => occ ≤ bound :=
  ⟨seriesOccurrenceStarts_sorted hzone, length_starts_le zones event,
    seriesOccurrenceStartsBounded_eq_filter hzone⟩

theorem expansion_spec_second_pass :
    (seriesOccurrenceStarts someZones (dailyEvent secondPass)).length = 2 ∧
      (seriesOccurrenceStarts someZones (dailyEvent secondPass)).Pairwise (· ≤ ·) ∧
        seriesOccurrenceStartsBounded someZones (dailyEvent secondPass) (some secondPass.val) =
          [secondPass.val - hourMs] := by
  obtain ⟨hsorted, -, hbounded⟩ := expansion_spec someZones (dailyEvent secondPass) newYork_lawful
  exact ⟨by decide, hsorted, (hbounded secondPass.val).trans (by decide)⟩

/-! ## What the window is to do -/

/-- The derived fields are what they stand for, and no event is missed. -/
structure WindowComplete (zones : String → Option Zone) (event : CalendarEvent) : Prop where
  duration : event.durationMs = (event.end_.map fun end_ => end_.val - event.start.val).getD 0
  seriesEnd : ∀ last, (seriesOccurrenceStarts zones event).getLast? = some last →
    event.seriesEnd = last + event.durationMs
  found : ∀ events : Events, events.findOne event.id = some event → ∀ from_ to_ : I64,
    occurrencesInWindow zones event from_ to_ ≠ [] →
      event ∈ fetchEventsForServerInWindow events event.server from_ to_

namespace CalendarEvent

/-- An occurrence that is skipped, or does not lie before the stored start. -/
def NotBefore (event : CalendarEvent) (occurrence : Int) : Prop :=
  occurrence ∈ event.exceptionSet ∨ event.start.val ≤ occurrence

instance (event : CalendarEvent) (occurrence : Int) : Decidable (event.NotBefore occurrence) :=
  inferInstanceAs (Decidable (_ ∨ _))

/-- An event that a window does not miss: neither its duration nor the end of its last occurrence
is past the limit of an `i64`, and its first occurrence does not lie before its start; where the
start is a time that chrono cannot represent, no occurrence does. -/
structure Findable (zones : String → Option Zone) (event : CalendarEvent) : Prop where
  duration : ∀ end_, event.end_ = some end_ → end_.val - event.start.val ≤ maxI64
  lastEnd : ∀ last, (seriesOccurrenceStarts zones event).getLast? = some last →
    last + event.durationMs ≤ maxI64
  first : if inRange event.start.val then
      ∀ first, (seriesOccurrenceStarts zones event).head? = some first → event.NotBefore first
    else ∀ occurrence ∈ seriesOccurrenceStarts zones event, event.NotBefore occurrence

end CalendarEvent

/-! ## The derived fields -/

section Derived

variable {zones : String → Option Zone} {event : CalendarEvent} (hstored : event.Stored zones)
include hstored

theorem durationMs_nonneg : 0 ≤ event.durationMs := by
  rw [hstored.duration]
  cases event.end_ with
  | none => exact le_refl _
  | some end_ => exact le_max_right _ _

theorem durationMs_iff :
    event.durationMs = (event.end_.map fun end_ => end_.val - event.start.val).getD 0 ↔
      ∀ end_, event.end_ = some end_ → end_.val - event.start.val ≤ maxI64 := by
  rw [hstored.duration]
  unfold CalendarEvent.recomputeDuration
  cases hend : event.end_ with
  | none => exact ⟨fun _ _ hno => (nomatch hno), fun _ => rfl⟩
  | some end_ =>
    have hlt := hstored.start_lt_end hend
    simp
    unfold wrapI64
    unfold minI64 maxI64 at *
    omega

theorem seriesEnd_of_none (hno : event.recurrence = none) :
    event.seriesEnd = (event.end_.getD event.start).val := by
  rw [hstored.seriesEnd]
  unfold CalendarEvent.computeSeriesEnd
  rw [hno]

theorem seriesEnd_of_recurs {rule : RecurrenceRule} (hrl : event.recurrence = some rule)
    {last : Int} (hls : (seriesOccurrenceStarts zones event).getLast? = some last) :
    event.seriesEnd = clampI64 (last + event.durationMs) := by
  have hpos := durationMs_nonneg hstored
  rw [hstored.seriesEnd]
  unfold CalendarEvent.computeSeriesEnd
  rw [hrl, hls]
  dsimp only [getD_some]
  rw [max_eq_left hpos]

end Derived

/-! ## The window -/

section Window

variable {zones : String → Option Zone} {event : CalendarEvent} (hzone : (event.zone zones).Lawful)
include hzone

variable {occ last : Int}

theorem mem_occurrencesInWindow {from_ to_ : I64} :
    occ ∈ occurrencesInWindow zones event from_ to_ ↔
      occ ∈ seriesOccurrenceStarts zones event ∧ occ ∉ event.exceptionSet ∧ occ ≤ to_.val ∧
        from_.val ≤ clampI64 (occ + max event.durationMs 0) := by
  unfold occurrencesInWindow
  rw [seriesOccurrenceStartsBounded_eq_filter hzone]
  simp only [mem_filter, decide_eq_true_eq, and_eq_true]
  constructor
  · rintro ⟨⟨⟨hocc, -⟩, hsk⟩, hto, hfr⟩
    exact ⟨hocc, hsk, hto, hfr⟩
  · rintro ⟨hocc, hsk, hto, hfr⟩
    exact ⟨⟨⟨hocc, hto⟩, hsk⟩, hto, hfr⟩

variable (hstored : event.Stored zones)
include hstored

theorem occurrence_end_le_seriesEnd (hocc : occ ∈ seriesOccurrenceStarts zones event) :
    clampI64 (occ + event.durationMs) ≤ event.seriesEnd := by
  cases hrl : event.recurrence with
  | none =>
    rw [seriesOccurrenceStarts_of_none hrl] at hocc
    rw [mem_singleton.mp hocc, seriesEnd_of_none hstored hrl, hstored.duration]
    have hstar := event.start.property
    unfold CalendarEvent.recomputeDuration
    cases hend : event.end_ with
    | none =>
      simp
      unfold clampI64
      omega
    | some end_ =>
      have hlt := hstored.start_lt_end hend
      simp
      unfold clampI64 wrapI64
      unfold minI64 maxI64 at *
      omega
  | some rule =>
    have hle := (seriesOccurrenceStarts_sorted hzone).rel_getLast hocc
    rw [seriesEnd_of_recurs hstored hrl (List.getLast?_eq_some_getLast (ne_nil_of_mem hocc))]
    unfold clampI64
    omega

/-- The store returns an event for every window with an occurrence exactly when no occurrence lies
before the start. -/
theorem found_iff : (∀ events : Events, events.findOne event.id = some event → ∀ from_ to_ : I64,
      occurrencesInWindow zones event from_ to_ ≠ [] →
        event ∈ fetchEventsForServerInWindow events event.server from_ to_) ↔
      ∀ occ ∈ seriesOccurrenceStarts zones event, event.NotBefore occ := by
  have hpos := durationMs_nonneg hstored
  constructor
  · intro hfnd occ hocc
    by_cases hsk : occ ∈ event.exceptionSet
    · exact .inl hsk
    · -- the window that is the moment of the occurrence
      have hi64 := occurrence_i64 hzone hocc
      have hwin : occ ∈ occurrencesInWindow zones event ⟨occ, hi64⟩ ⟨occ, hi64⟩ :=
        (mem_occurrencesInWindow hzone).mpr ⟨hocc, hsk, le_refl _, by
          show occ ≤ _
          unfold clampI64
          omega⟩
      have hmem := hfnd (Collection.empty.put event)
        (by rw [Collection.findOne_put, if_pos rfl]) _ _ (ne_nil_of_mem hwin)
      have hstar := (mem_filter.mp hmem).2
      simp only [and_eq_true, decide_eq_true_eq] at hstar
      exact .inr hstar.1.2
  · intro hnotBefore events hev from_ to_ hwin
    obtain ⟨occ, hmem⟩ := List.exists_mem_of_ne_nil _ hwin
    obtain ⟨hocc, hsk, hto, hfr⟩ := (mem_occurrencesInWindow hzone).mp hmem
    have hstar := (hnotBefore occ hocc).resolve_left hsk
    have hend := occurrence_end_le_seriesEnd hzone hstored hocc
    rw [max_eq_left hpos] at hfr
    refine mem_filter.mpr ⟨mem_values_of_get hev, ?_⟩
    simp only [and_eq_true, decide_eq_true_eq]
    exact ⟨⟨trivial, hstar.trans hto⟩, hfr.trans hend⟩

omit hzone in
theorem seriesEnd_le (hls : (seriesOccurrenceStarts zones event).getLast? = some last) :
    event.seriesEnd ≤ maxI64 := by
  cases hrl : event.recurrence with
  | none =>
    rw [seriesEnd_of_none hstored hrl]
    exact (event.end_.getD event.start).property.2
  | some rule =>
    rw [seriesEnd_of_recurs hstored hrl hls]
    unfold clampI64 minI64 maxI64
    omega

theorem seriesEnd_eq (hdur : ∀ end_, event.end_ = some end_ → end_.val - event.start.val ≤ maxI64)
    (hls : (seriesOccurrenceStarts zones event).getLast? = some last)
    (hft : last + event.durationMs ≤ maxI64) : event.seriesEnd = last + event.durationMs := by
  cases hrl : event.recurrence with
  | none =>
    rw [seriesOccurrenceStarts_of_none hrl] at hls
    have hls : event.start.val = last := some.inj hls
    rw [seriesEnd_of_none hstored hrl, (durationMs_iff hstored).mpr hdur, ← hls]
    cases event.end_ with
    | none => exact (Int.add_zero _).symm
    | some end_ =>
      simp only [map_some, getD_some]
      omega
  | some rule =>
    have hi64 := occurrence_i64 hzone (List.mem_of_getLast? hls)
    have hpos := durationMs_nonneg hstored
    rw [seriesEnd_of_recurs hstored hrl hls, clampI64_of_fits (by omega) hft]

end Window

/-- **The calendar window misses nothing** of the events that are findable, and their derived
fields are what they stand for; of every other event that is stored something is wrong. -/
theorem window_complete_iff {zones : String → Option Zone}
    (hzones : ∀ name zone, zones name = some zone → zone.Lawful) {event : CalendarEvent}
    (hsaved : event.Saved zones) : WindowComplete zones event ↔ event.Findable zones := by
  have hzone := CalendarEvent.zone_lawful hzones event
  have hstored := hsaved.stored
  have hfirst := forall_starts_iff hzone (P := event.NotBefore) fun _ hle => .inr hle
  constructor
  · intro hcomplete
    refine ⟨(durationMs_iff hstored).mp hcomplete.duration, fun last hlast => ?_, ?_⟩
    · rw [← hcomplete.seriesEnd last hlast]
      exact seriesEnd_le hstored hlast
    · exact hfirst.mpr ((found_iff hzone hstored).mp hcomplete.found)
  · intro hfindable
    refine ⟨(durationMs_iff hstored).mpr hfindable.duration, fun last hlast => ?_, ?_⟩
    · exact seriesEnd_eq hzone hstored hfindable.duration hlast (hfindable.lastEnd last hlast)
    · exact (found_iff hzone hstored).mpr (hfirst.mp hfindable.first)

/-- The first occurrence of the event in the second pass is an hour before its start, and a window
that ends between the two misses it. -/
theorem window_misses_second_pass : ¬∀ (zones : String → Option Zone) (event : CalendarEvent),
    (∀ name zone, zones name = some zone → zone.Lawful) → event.Saved zones →
      WindowComplete zones event := by
  intro hall
  have hzone : ((dailyEvent secondPass).zone someZones).Lawful := newYork_lawful
  have hcomplete := hall someZones (dailyEvent secondPass) someZones_lawful secondPass_saved
  have hfirst := (found_iff hzone secondPass_saved.stored).mp hcomplete.found
    (secondPass.val - hourMs) (by decide)
  exact absurd hfirst (by decide)

/-- No window misses the event in the first pass. -/
theorem window_complete_iff_first_pass : WindowComplete someZones (dailyEvent firstPass) := by
  refine (window_complete_iff someZones_lawful firstPass_saved).mpr ⟨?_, ?_, ?_⟩
  · exact fun end_ hend => nomatch hend
  · have hlast : (seriesOccurrenceStarts someZones (dailyEvent firstPass)).getLast? =
        some (firstPass.val + 25 * hourMs) := by decide
    intro last heq
    injection heq with heq
    subst heq
    decide
  · rw [if_pos (by decide)]
    intro first hhead
    injection hhead with hhead
    subst hhead
    decide

end SlogaBackend.Calendar
