import SlogaBackend.Calendar.Expansion
import SlogaBackend.Lib.Outbox

/-!
# Reminders

Every minute crond scans the events whose series may have an occurrence with a reminder due,
expands them, and for each reminder that has just come due sends a push to each attendee who is
`Going`. A marker is written first and only a newly written marker sends; markers are swept a
day after their occurrence.

The store's window is coarse: it compares the start and the end of a series, as they are stored,
with the time of the scan. `remindersDueForEvent` is exact.

* `mem_remindersDueForEvent`: which reminders are due.
* `guarded_run`: what a run of scans keeps of a marker.
-/

namespace SlogaBackend.Calendar

open Enumeration

/-! ## What is due -/

/-- How long before an occurrence a reminder fires. -/
def reminderOffsetsMs : List Int := [30 * 60 * 1000, 0]

/-- How late a reminder may be. -/
def reminderGraceMs : Int := 5 * 60 * 1000

def retentionMs : Int := 24 * 60 * 60 * 1000

/-- `iter().max().unwrap_or(0)`. -/
def maxOffset (offsets : List Int) : Int := offsets.max?.getD 0

/-- The lead offsets of an event: only its start, if it lasts all day. -/
def CalendarEvent.leadOffsets (event : CalendarEvent) : List Int :=
  if event.allDay then [0] else reminderOffsetsMs

/-- The occurrences and offsets whose reminder has just come due. -/
def remindersDueForEvent (zones : String → Option Zone) (event : CalendarEvent) (now : Int) :
    List (Int × Int) :=
  if event.cancelled then []
  else
    let bound := wrapI64 (now + maxOffset event.leadOffsets)
    ((seriesOccurrenceStartsBounded zones event (some bound)).filter fun occ =>
      occ ∉ event.exceptionSet).flatMap fun occ =>
        (event.leadOffsets.filter fun offset =>
          wrapI64 (occ - offset) ≤ now ∧ wrapI64 (now - reminderGraceMs) < wrapI64 (occ - offset)).map
            fun offset => (occ, offset)

/-! ## The store -/

def fetchEventsInReminderWindow (events : Events) (startMax seriesEndMin : Int) :
    List CalendarEvent :=
  events.rows.values.filter fun event =>
    !event.cancelled && event.start.val ≤ startMax && seriesEndMin ≤ event.seriesEnd

inductive RsvpStatus where
  | pending
  | going
  | notGoing
  deriving DecidableEq

/-- A row of `EventRsvp`: whose answer it is, and the answer. -/
structure EventRsvp where
  event : String
  user : String
  status : RsvpStatus

structure ReminderSentKey where
  event : String
  user : String
  occurrence : Int
  offset : Int
  deriving DecidableEq

inductive CalendarEventNotification where
  | invited
  | cancelled
  | reminder

structure CalendarEventPayload where
  user : String
  eventId : String
  serverId : String
  title : String
  kind : CalendarEventNotification
  occurrenceStart : Option Int
  channelId : Option String
  offsetMs : Option Int

/-! ## The scan -/

/-- `now_ms`: a clock before the epoch reads 0. -/
abbrev ClockMs := { now : Int // 0 ≤ now ∧ now ≤ maxI64 }

/-- A scan: when it is, what it finds in the database, and which of its calls are answered. -/
structure Tick where
  now : ClockMs
  events : Events
  rsvps : List EventRsvp
  /-- Whether `fetch_member` finds a user in a server. -/
  isMember : String → String → Bool
  /-- Whether the events can be fetched. -/
  fetched : Bool
  /-- Whether the answers to an event can be fetched. -/
  rsvpsFetched : String → Bool
  mark : ReminderSentKey → Answer
  sweep : Answer

/-- The markers, and what has been handed to the broker. -/
abbrev Reminders := Outbox ReminderSentKey CalendarEventPayload

namespace Tick

variable (tick : Tick)

/-- The candidate events of a scan. -/
def candidates : List CalendarEvent :=
  fetchEventsInReminderWindow tick.events (wrapI64 (tick.now.val + maxOffset reminderOffsetsMs))
    (wrapI64 (tick.now.val - reminderGraceMs))

/-- Those who are going, as the database has it. -/
def going (event : CalendarEvent) : List String :=
  ((tick.rsvps.filter fun rsvp => rsvp.event = event.id).filter fun rsvp =>
    rsvp.status = .going).map EventRsvp.user

/-- Those who are still in the server. -/
def recipients (event : CalendarEvent) : List String :=
  (tick.going event).filter fun user => tick.isMember event.server user

end Tick

def reminderFor (event : CalendarEvent) (occurrence offset : Int) (user : String) :
    ReminderSentKey × CalendarEventPayload :=
  (⟨event.id, user, occurrence, offset⟩,
    { user := user
      eventId := event.id
      serverId := event.server
      title := event.title
      kind := .reminder
      occurrenceStart := some occurrence
      channelId := event.channel
      offsetMs := some offset })

section Scan

variable (zones : String → Option Zone)

def scanEvent (tick : Tick) (reminders : Reminders) (event : CalendarEvent) : Reminders :=
  let due := remindersDueForEvent zones event tick.now.val
  if due = [] then reminders
  else if !tick.rsvpsFetched event.id then reminders
  else if tick.going event = [] then reminders
  else if tick.recipients event = [] then reminders
  else
    due.foldl (fun reminders (occurrence, offset) =>
      (tick.recipients event).foldl (fun reminders user =>
        let reminder := reminderFor event occurrence offset user
        reminders.offer (tick.mark reminder.1) reminder.1 reminder.2) reminders) reminders

def deleteRemindersSentBefore (answer : Answer) (occurrenceBefore : Int) (reminders : Reminders) :
    Reminders :=
  match answer with
  | .refused => reminders
  | .answered | .unanswered => reminders.sweep fun key => occurrenceBefore ≤ key.occurrence

/-- One round of the task. If the events cannot be fetched, the task ends there. -/
def scan (reminders : Reminders) (tick : Tick) : Reminders :=
  if tick.fetched then
    deleteRemindersSentBefore tick.sweep (wrapI64 (tick.now.val - retentionMs))
      (tick.candidates.foldl (scanEvent zones tick) reminders)
  else reminders

def runScans (ticks : List Tick) (reminders : Reminders) : Reminders :=
  ticks.foldl (scan zones) reminders

end Scan

/-! ## Due reminders -/

/-- The reminders of an event: an occurrence that is not skipped, and a lead offset. -/
def CalendarEvent.HasReminder (zones : String → Option Zone) (event : CalendarEvent)
    (occurrence offset : Int) : Prop :=
  occurrence ∈ seriesOccurrenceStarts zones event ∧ occurrence ∉ event.exceptionSet ∧
    offset ∈ event.leadOffsets

section Due

variable {zones : String → Option Zone} {event : CalendarEvent}

theorem mem_remindersDueForEvent (hzn : (event.zone zones).Lawful)
    (hunc : event.cancelled = false) {now occurrence offset : Int} :
    (occurrence, offset) ∈ remindersDueForEvent zones event now ↔
      event.HasReminder zones occurrence offset ∧
        occurrence ≤ wrapI64 (now + maxOffset event.leadOffsets) ∧
        wrapI64 (occurrence - offset) ≤ now ∧
        wrapI64 (now - reminderGraceMs) < wrapI64 (occurrence - offset) := by
  unfold remindersDueForEvent CalendarEvent.HasReminder
  dsimp only
  rw [hunc, seriesOccurrenceStartsBounded_eq_filter hzn]
  simp only [Bool.false_eq_true, if_false, mem_flatMap, mem_filter, mem_map,
    decide_eq_true_eq, Prod.mk.injEq]
  constructor
  · rintro ⟨occ, ⟨⟨hocc, hboun⟩, hsk⟩, off, ⟨hoff, hdue⟩, rfl, rfl⟩
    exact ⟨⟨hocc, hsk, hoff⟩, hboun, hdue⟩
  · rintro ⟨⟨hocc, hsk, hoff⟩, hboun, hdue⟩
    exact ⟨occurrence, ⟨⟨hocc, hboun⟩, hsk⟩, offset, ⟨hoff, hdue⟩, rfl, rfl⟩

theorem leadOffsets_range {offset : Int} (hoffs : offset ∈ event.leadOffsets) :
    0 ≤ offset ∧ offset ≤ maxOffset event.leadOffsets ∧
      maxOffset event.leadOffsets ≤ maxOffset reminderOffsetsMs := by
  unfold CalendarEvent.leadOffsets at hoffs ⊢
  split
  · rename_i hallDay
    rw [if_pos hallDay] at hoffs
    rw [mem_singleton.mp hoffs]
    decide
  · rename_i htim
    rw [if_neg htim] at hoffs
    have hall : ∀ offset ∈ reminderOffsetsMs, 0 ≤ offset ∧
        offset ≤ maxOffset reminderOffsetsMs := by decide
    exact ⟨(hall offset hoffs).1, (hall offset hoffs).2, le_refl _⟩

theorem zero_mem_leadOffsets (event : CalendarEvent) : 0 ∈ event.leadOffsets := by
  unfold CalendarEvent.leadOffsets
  split <;> decide

theorem maxOffset_mem_leadOffsets (event : CalendarEvent) :
    maxOffset event.leadOffsets ∈ event.leadOffsets := by
  unfold CalendarEvent.leadOffsets
  split <;> decide

end Due

/-! ## What a scan offers -/

section Offers

variable (zones : String → Option Zone)

/-- The reminders that a scan offers for an event. -/
def remindersOf (tick : Tick) (event : CalendarEvent) :
    List (ReminderSentKey × CalendarEventPayload) :=
  if tick.rsvpsFetched event.id then
    (remindersDueForEvent zones event tick.now.val).flatMap fun pair =>
      (tick.recipients event).map (reminderFor event pair.1 pair.2)
  else []

def remindersOfScan (tick : Tick) : List (ReminderSentKey × CalendarEventPayload) :=
  tick.candidates.flatMap (remindersOf zones tick)

theorem scanEvent_eq (tick : Tick) (reminders : Reminders) (event : CalendarEvent) :
    scanEvent zones tick reminders event =
      reminders.offerAll tick.mark (remindersOf zones tick event) := by
  have hnob : tick.recipients event = [] → reminders =
      reminders.offerAll tick.mark ((remindersDueForEvent zones event tick.now.val).flatMap
        fun pair => (tick.recipients event).map (reminderFor event pair.1 pair.2)) := by
    intro hrec
    rw [hrec]
    simp only [List.map_nil]
    rw [List.flatMap_eq_nil_iff.mpr fun _ _ => rfl]
    rfl
  unfold scanEvent remindersOf
  by_cases hdue : remindersDueForEvent zones event tick.now.val = []
  · rw [if_pos hdue, hdue, List.flatMap_nil, ite_self]
    rfl
  · rw [if_neg hdue]
    cases hfet : tick.rsvpsFetched event.id with
    | false => rfl
    | true =>
      rw [if_neg (by decide), if_pos rfl]
      split
      · rename_i hgoin
        refine hnob ?_
        unfold Tick.recipients
        rw [hgoin]
        rfl
      · split
        · exact hnob ‹_›
        · unfold Outbox.offerAll
          rw [List.foldl_flatMap]
          simp only [List.foldl_map]

theorem scan_eq (tick : Tick) (reminders : Reminders) : scan zones reminders tick =
      if tick.fetched then
        deleteRemindersSentBefore tick.sweep (wrapI64 (tick.now.val - retentionMs))
          (reminders.offerAll tick.mark (remindersOfScan zones tick))
      else reminders := by
  have hfl : ∀ (events : List CalendarEvent) (reminders : Reminders), events.foldl (scanEvent zones tick) reminders =
      reminders.offerAll tick.mark (events.flatMap (remindersOf zones tick)) := by
    intro events
    induction events with
    | nil => exact fun _ => rfl
    | cons event events ih =>
      intro reminders
      rw [foldl_cons, scanEvent_eq, ih, List.flatMap_cons, Outbox.offerAll_append]
  unfold scan remindersOfScan
  rw [hfl]

end Offers

/-! ## Runs of scans -/

/-- Scans of a store that holds an event, in time: the clock moves on by at most the grace from
one to the next. -/
structure Scans (event : CalendarEvent) (ticks : List Tick) : Prop where
  stored : ∀ tick ∈ ticks, tick.events.findOne event.id = some event
  gaps : ticks.IsChain fun tick tick' =>
    tick.now.val < tick'.now.val ∧ tick'.now.val ≤ tick.now.val + reminderGraceMs

section Runs

variable {zones : String → Option Zone} {event : CalendarEvent} {tick : Tick}
  {key : ReminderSentKey}

theorem eq_of_mem_candidates (hsto : tick.events.findOne event.id = some event)
    {event' : CalendarEvent} (hmem : event' ∈ tick.candidates) (hid : event'.id = event.id) :
    event' = event := by
  obtain ⟨id, hg⟩ := mem_values.mp (List.mem_of_mem_filter hmem)
  have hkey := tick.events.keyed id event' hg
  rw [← hkey, hid] at hg
  exact some.inj (hg.symm.trans hsto)

theorem due_of_mem_remindersOfScan (hsto : tick.events.findOne event.id = some event)
    (hkey : key.event = event.id) {payload : CalendarEventPayload}
    (hmem : (key, payload) ∈ remindersOfScan zones tick) :
    (key.occurrence, key.offset) ∈ remindersDueForEvent zones event tick.now.val := by
  obtain ⟨event', hcan, hmem⟩ := mem_flatMap.mp hmem
  unfold remindersOf at hmem
  split at hmem
  · obtain ⟨⟨occurrence, offset⟩, hdue, hmem⟩ := mem_flatMap.mp hmem
    obtain ⟨user, -, heq⟩ := mem_map.mp hmem
    cases heq
    rwa [eq_of_mem_candidates hsto hcan hkey] at hdue
  · cases hmem

/-- Every reminder of an event comes due when it fires or less than the grace later. -/
def InTime (zones : String → Option Zone) (event : CalendarEvent) : Prop :=
  ∀ (now : ClockMs) {occurrence offset : Int},
    (occurrence, offset) ∈ remindersDueForEvent zones event now.val →
      occurrence - offset ≤ now.val ∧ now.val < occurrence - offset + reminderGraceMs

theorem wrapI64_clock_sub (now : ClockMs) {duration : Int} (hpos : 0 ≤ duration)
    (hft : duration ≤ maxI64) : wrapI64 (now.val - duration) = now.val - duration := by
  refine wrapI64_of_fits ?_ ?_
  · unfold minI64 maxI64 at *
    omega
  · omega

section

variable (answer : Answer) (occurrenceBefore : Int) (reminders : Reminders)

theorem deleteRemindersSentBefore_cases :
    deleteRemindersSentBefore answer occurrenceBefore reminders = reminders ∨
      deleteRemindersSentBefore answer occurrenceBefore reminders =
        reminders.sweep fun key => occurrenceBefore ≤ key.occurrence := by
  cases answer with
  | refused => exact .inl rfl
  | _ => exact .inr rfl

theorem times_deleteRemindersSentBefore (key : ReminderSentKey) :
    (deleteRemindersSentBefore answer occurrenceBefore reminders).times key =
      reminders.times key := by
  cases answer <;> rfl

end

theorem times_le_scan (key : ReminderSentKey) (tick : Tick) (reminders : Reminders) :
    reminders.times key ≤ (scan zones reminders tick).times key := by
  rw [scan_eq]
  split
  · rw [times_deleteRemindersSentBefore]
    exact Outbox.times_le_offerAll _ _
  · exact le_refl _

variable {reminders : Reminders}

theorem times_le_runScans (key : ReminderSentKey) (ticks : List Tick) (reminders : Reminders) :
    reminders.times key ≤ (runScans zones ticks reminders).times key := by
  induction ticks generalizing reminders with
  | nil => exact le_refl _
  | cons tick ticks ih => exact (times_le_scan key tick reminders).trans (ih _)

/-! ### At most once -/

section AtMostOnce

variable (hinTime : InTime zones event) (hunc : event.cancelled = false)
  (hzn : (event.zone zones).Lawful) {key : ReminderSentKey} (hkey : key.event = event.id)
include hinTime hunc hzn hkey

section

variable {tick : Tick} (hsto : tick.events.findOne event.id = some event)
include hsto

theorem live_of_mem_remindersOfScan {payload : CalendarEventPayload}
    (hmem : (key, payload) ∈ remindersOfScan zones tick) :
    tick.now.val - retentionMs ≤ key.occurrence := by
  have hdue := due_of_mem_remindersOfScan hsto hkey hmem
  have hlt := (hinTime tick.now hdue).2
  have hoffs := (leadOffsets_range ((mem_remindersDueForEvent hzn hunc).mp hdue).1.2.2).1
  have hret : reminderGraceMs ≤ retentionMs := by decide
  omega

/-- **One scan** keeps the marker of a key that a later one may offer. -/
theorem guarded_scan (hguar : reminders.Guarded key (tick.now.val - retentionMs ≤ key.occurrence)) :
    (scan zones reminders tick).Guarded key (tick.now.val - retentionMs ≤ key.occurrence) := by
  rw [scan_eq]
  split
  · have hoffe := hguar.offerAll tick.mark (fun reminder hmem heq =>
      live_of_mem_remindersOfScan hinTime hunc hzn hkey hsto
        (show (key, reminder.2) ∈ remindersOfScan zones tick from heq ▸ hmem))
    rcases deleteRemindersSentBefore_cases tick.sweep (wrapI64 (tick.now.val - retentionMs))
      (reminders.offerAll tick.mark (remindersOfScan zones tick)) with hkp | hswep
    · rw [hkp]
      exact hoffe
    · rw [hswep, wrapI64_clock_sub tick.now (by decide) (by decide)]
      exact hoffe.sweep id fun hlv => decide_eq_true hlv
  · exact hguar

end

/-- **A run of scans** sends a key at most once. -/
theorem times_runScans_le {ticks : List Tick} (hsca : Scans event ticks)
    (hno : reminders.times key = 0) : (runScans zones ticks reminders).times key ≤ 1 := by
  have hrun : ∀ (ticks : List Tick) (tick : Tick) (reminders : Reminders),
      Scans event (tick :: ticks) →
      reminders.Guarded key (tick.now.val - retentionMs ≤ key.occurrence) →
      (runScans zones (tick :: ticks) reminders).times key ≤ 1 := by
    intro ticks
    induction ticks with
    | nil =>
      intro tick reminders hsca hguar
      exact (guarded_scan hinTime hunc hzn hkey (hsca.stored tick mem_cons_self) hguar).once
    | cons next ticks ih =>
      intro tick reminders hsca hguar
      obtain ⟨⟨hlat, -⟩, hgp⟩ := List.isChain_cons_cons.mp hsca.gaps
      have hsc := guarded_scan hinTime hunc hzn hkey (hsca.stored tick mem_cons_self) hguar
      exact ih next _ ⟨fun tick' hmem => hsca.stored tick' (mem_cons_of_mem _ hmem), hgp⟩
        (hsc.imp fun hlv => by omega)
  cases ticks with
  | nil =>
    show reminders.times key ≤ 1
    omega
  | cons tick ticks => exact hrun ticks tick reminders hsca (Outbox.guarded_of_not_sent hno)

end AtMostOnce

/-! ### Once -/

/-- A scan in which every call that the reminders of an attendee need is answered. -/
structure Delivers (event : CalendarEvent) (key : ReminderSentKey) (tick : Tick) : Prop where
  fetched : tick.fetched = true
  rsvpsFetched : tick.rsvpsFetched event.id = true
  going : ⟨event.id, key.user, .going⟩ ∈ tick.rsvps
  member : tick.isMember event.server key.user = true
  marked : tick.mark key = .answered

theorem mem_remindersOfScan (hkey : key.event = event.id) (hdel : Delivers event key tick)
    (hcan : event ∈ tick.candidates)
    (hdue : (key.occurrence, key.offset) ∈ remindersDueForEvent zones event tick.now.val) :
    ∃ payload, (key, payload) ∈ remindersOfScan zones tick := by
  have hgoin : key.user ∈ tick.going event :=
    mem_map.mpr ⟨⟨event.id, key.user, .going⟩, mem_filter.mpr
      ⟨mem_filter.mpr ⟨hdel.going, decide_eq_true rfl⟩, decide_eq_true rfl⟩, rfl⟩
  have hreci : key.user ∈ tick.recipients event := mem_filter.mpr ⟨hgoin, hdel.member⟩
  have hrem : key = (reminderFor event key.occurrence key.offset key.user).1 := by
    unfold reminderFor
    rw [← hkey]
  refine ⟨(reminderFor event key.occurrence key.offset key.user).2,
    mem_flatMap.mpr ⟨event, hcan, ?_⟩⟩
  unfold remindersOf
  rw [if_pos hdel.rsvpsFetched]
  exact mem_flatMap.mpr ⟨_, hdue, mem_map.mpr ⟨key.user, hreci, Prod.ext hrem.symm rfl⟩⟩

theorem honest_scan (hmr : tick.mark key = .answered)
    (hhon : reminders.Honest key) : (scan zones reminders tick).Honest key := by
  rw [scan_eq]
  split
  · have hoffe := hhon.offerAll hmr (remindersOfScan zones tick)
    rcases deleteRemindersSentBefore_cases tick.sweep (wrapI64 (tick.now.val - retentionMs))
      (reminders.offerAll tick.mark (remindersOfScan zones tick)) with hkp | hswep
    · rw [hkp]
      exact hoffe
    · rw [hswep]
      exact hoffe.sweep _
  · exact hhon

theorem times_runScans_pos {ticks : List Tick} (hkey : key.event = event.id)
    (hdel : ∀ tick ∈ ticks, Delivers event key tick)
    (hfnd : ∃ tick ∈ ticks, event ∈ tick.candidates ∧
      (key.occurrence, key.offset) ∈ remindersDueForEvent zones event tick.now.val)
    (hhon : reminders.Honest key) :
    0 < (runScans zones ticks reminders).times key := by
  induction ticks generalizing reminders with
  | nil =>
    obtain ⟨tick, hmem, -⟩ := hfnd
    cases hmem
  | cons tick ticks ih =>
    have hfst := hdel tick mem_cons_self
    obtain ⟨tick', hmem, hcan, hdue⟩ := hfnd
    rcases mem_cons.mp hmem with rfl | hmem
    · obtain ⟨payload, hoffer⟩ := mem_remindersOfScan hkey hfst hcan hdue
      have hsn := hhon.offerAll hfst.marked (remindersOfScan zones tick')
        (Outbox.mem_marks_offerAll hoffer hfst.marked)
      refine Nat.lt_of_lt_of_le ?_ (times_le_runScans key ticks _)
      rw [scan_eq, if_pos hfst.fetched, times_deleteRemindersSentBefore]
      exact hsn
    · exact ih (fun tick hmem => hdel tick (mem_cons_of_mem _ hmem))
        ⟨tick', hmem, hcan, hdue⟩ (honest_scan hfst.marked hhon)

end Runs

end SlogaBackend.Calendar
