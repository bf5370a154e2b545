import SlogaBackend.Lib.Discipline
import SlogaBackend.Calendar.Edits

/-!
# Cancelling and editing at the same time

A cancellation sets one field of the stored event. An edit reads the event, checks it and writes
the whole document back, so a cancellation that lands in between is overwritten: the event is no
longer cancelled.

That is the only way. In an interleaving where no edit writes over a cancelled event, an event
stays cancelled once a cancellation of it has completed (`cancelled_stays`). The proof runs such
an interleaving on a store that refuses those writes, where every request keeps what is cancelled.
-/

namespace SlogaBackend.Calendar

open Checks

/-! ## The calls -/

inductive Call where
  | fetchEvent (id : String)
  | replaceEvent (event : CalendarEvent)
  | updateEvent (id : String) (partial_ : PartialCalendarEvent) (remove : List FieldsCalendarEvent)

/-- The last two say whether the event was found. -/
abbrev Reply : Call → Type
  | .fetchEvent _ => Option CalendarEvent
  | .replaceEvent _ => Bool
  | .updateEvent .. => Bool

def perform (_ : Nat) : (c : Call) → Events → Events × Reply c
  | .fetchEvent id, events => (events, events.findOne id)
  | .replaceEvent event, events =>
    match events.findOne event.id with
    | none => (events, false)
    | some _ => (events.put event, true)
  | .updateEvent id partial_ remove, events =>
    match events.findOne id with
    | none => (events, false)
    | some event =>
      (events.put ((remove.foldl CalendarEvent.removeField event).applyOptions partial_), true)

abbrev Program (α : Type) := Prog Error Call Reply α

/-! ## The requests -/

structure DataEditEvent where
  title : Option String := none
  description : Option String := none
  location : Option String := none
  start : Option I64 := none
  end_ : Option I64 := none
  allDay : Option Bool := none
  timezone : Option String := none
  recurrence : Option RecurrenceRule := none
  color : Option String := none
  channel : Option String := none
  remove : List FieldsCalendarEvent := []

def DataEditEvent.partial_ (data : DataEditEvent) : PartialCalendarEvent where
  title := data.title
  description := data.description
  location := data.location
  start := data.start
  end_ := data.end_
  allDay := data.allDay
  timezone := data.timezone
  recurrence := data.recurrence
  color := data.color
  channel := data.channel

/-- A request on an event, with the outcome that the permission checks have on what was fetched.
An edit may attach files, which writes once more. -/
inductive Request where
  | edit (target : String) (data : DataEditEvent) (attachmentsChanged : Bool)
    (checks : CalendarEvent → Result Unit)
  | cancel (target : String) (checks : CalendarEvent → Result Unit)

def editEvent (zones : String → Option Zone) (target : String) (data : DataEditEvent)
    (attachmentsChanged : Bool) (checks : CalendarEvent → Result Unit) : Program Unit := do
  let event ← op (.fetchEvent target)
  let event ← check (okOr event .notFound)
  check (checks event)
  check (refuseIf (event.cancelled = true) .invalidOperation)
  let event ← check (event.edit zones data.partial_ data.remove)
  let found ← op (.replaceEvent event)
  check (refuseIf (found = false) .notFound)
  if attachmentsChanged then
    let found ← op (.updateEvent event.id {} [])
    check (refuseIf (found = false) .notFound)
  else return ()

def cancelEvent (target : String) (checks : CalendarEvent → Result Unit) : Program Unit := do
  let event ← op (.fetchEvent target)
  let event ← check (okOr event .notFound)
  check (checks event)
  if event.cancelled then return ()
  else
    let found ← op (.updateEvent event.id { cancelled := some true } [])
    check (refuseIf (found = false) .notFound)

def Request.program (zones : String → Option Zone) : Request → Program Unit
  | .edit target data attachmentsChanged checks =>
    editEvent zones target data attachmentsChanged checks
  | .cancel target checks => cancelEvent target checks

abbrev Requests := System Events Request Error Call Reply Unit

def Requests.exec (zones : String → Option Zone) : Requests → Event Request → Requests × Unit :=
  System.exec perform (Request.program zones)

/-! ## Writes over a cancelled event -/

/-- The event is cancelled, if it is there. -/
def IsCancelled (events : Events) (id : String) : Prop :=
  ∀ event, events.findOne id = some event → event.cancelled = true

/-- Whether a call is the write of an edit over a cancelled event. -/
def overwrites (events : Events) : Call → Bool
  | .replaceEvent event => (events.findOne event.id).any CalendarEvent.cancelled
  | _ => false

/-- Whether the next call of a process is such a write. -/
def nextOverwrites (sys : Requests) (pid : Nat) : Bool :=
  match sys.processes.get pid with
  | some ⟨_, some (.call c _)⟩ => overwrites sys.store c
  | _ => false

/-- No edit writes over a cancelled event. -/
def NoOverwrite (sys : Requests) : Event Request → Prop
  | .step pid => nextOverwrites sys pid = false
  | _ => True

instance (sys : Requests) : ∀ event, Decidable (NoOverwrite sys event)
  | .step _ => inferInstanceAs (Decidable (_ = false))
  | .start _ _ => inferInstanceAs (Decidable True)
  | .crash _ => inferInstanceAs (Decidable True)

/-! ## A store that refuses them -/

/-- The calls, except that nothing is written over a cancelled event. -/
def performKept (pid : Nat) (c : Call) (events : Events) : Events × Reply c :=
  if overwrites events c then
    match c with
    | .fetchEvent id => (events, events.findOne id)
    | .replaceEvent _ => (events, false)
    | .updateEvent .. => (events, false)
  else perform pid c events

theorem exec_eq_kept (zones : String → Option Zone) (sys : Requests) (event : Event Request)
    (hadm : NoOverwrite sys event) :
    Requests.exec zones sys event = System.exec performKept (Request.program zones) sys event := by
  unfold Requests.exec
  cases event with
  | step pid =>
    have hnx : nextOverwrites sys pid = false := hadm
    unfold nextOverwrites at hnx
    simp only [System.exec]
    split
    · rename_i c _ hg
      rw [hg] at hnx
      have hkt : performKept pid c sys.store = perform pid c sys.store :=
        if_neg (by rw [show overwrites sys.store c = false from hnx]; decide)
      rw [hkt]
    · rfl
  | _ => rfl

/-! ## What every request keeps -/

def KeepsCancelled (events events' : Events) : Prop :=
  ∀ id, IsCancelled events id → IsCancelled events' id

theorem KeepsCancelled.refl (events : Events) : KeepsCancelled events events := fun _ h => h

theorem keepsCancelled_put {events : Events} {event : CalendarEvent}
    (hkp : IsCancelled events event.id → event.cancelled = true) :
    KeepsCancelled events (events.put event) := by
  intro id hcan event' hfnd
  rw [Collection.findOne_put] at hfnd
  split at hfnd
  · rename_i hid
    injection hfnd with heq
    rw [← heq]
    exact hkp (hid ▸ hcan)
  · exact hcan event' hfnd

section

variable (event : CalendarEvent) (remove : List FieldsCalendarEvent)

theorem removeField_cancelled :
    (remove.foldl CalendarEvent.removeField event).cancelled = event.cancelled := by
  induction remove generalizing event with
  | nil => rfl
  | cons field remove ih =>
    rw [foldl_cons, ih]
    cases field <;> rfl

theorem removeField_id : (remove.foldl CalendarEvent.removeField event).id = event.id := by
  induction remove generalizing event with
  | nil => rfl
  | cons field remove ih =>
    rw [foldl_cons, ih]
    cases field <;> rfl

end

/-- The calls that do not clear the flag themselves. -/
def neverClears : Call → Prop
  | .updateEvent _ partial_ _ => partial_.cancelled ≠ some false
  | _ => True

/-- **One call**, on a store that refuses to write over a cancelled event. -/
theorem keepsCancelled_performKept (pid : Nat) {c : Call} (hnev : neverClears c)
    (events : Events) : KeepsCancelled events (performKept pid c events).1 := by
  unfold performKept
  split
  · cases c <;> exact .refl events
  · rename_i hkt
    cases c with
    | fetchEvent id => exact .refl events
    | replaceEvent event =>
      unfold perform
      dsimp only
      split
      · exact .refl events
      · rename_i old hold
        refine keepsCancelled_put fun hcan => ?_
        have hunc : ¬(events.findOne event.id).any CalendarEvent.cancelled = true := hkt
        rw [hold] at hunc
        exact absurd (hcan old hold) hunc
    | updateEvent id partial_ remove =>
      unfold perform
      dsimp only
      split
      · exact .refl events
      · rename_i event hfnd
        refine keepsCancelled_put fun hcan => ?_
        have hid := key_of_findOne hfnd
        have hev : event.cancelled = true := by
          refine hcan event ?_
          show events.findOne (remove.foldl CalendarEvent.removeField event).id = some event
          rw [removeField_id, hid]
          exact hfnd
        show partial_.cancelled.getD (remove.foldl CalendarEvent.removeField event).cancelled = true
        rw [removeField_cancelled, hev]
        cases hfl : partial_.cancelled with
        | none => rfl
        | some flag =>
          cases flag with
          | true => rfl
          | false => exact absurd hfl hnev

theorem only_op {c : Call} (hnev : neverClears c) : (op c : Program (Reply c)).Only neverClears :=
  ⟨hnev, fun _ => trivial⟩

theorem only_editEvent (zones : String → Option Zone) (target : String) (data : DataEditEvent)
    (attachmentsChanged : Bool) (checks : CalendarEvent → Result Unit) :
    (editEvent zones target data attachmentsChanged checks).Only neverClears := by
  refine Only.bind (fun event => ?_) (only_op trivial)
  refine Only.bind (fun event => ?_) trivial
  refine Only.bind (fun _ => ?_) trivial
  refine Only.bind (fun _ => ?_) trivial
  refine Only.bind (fun event => ?_) trivial
  refine Only.bind (fun found => ?_) (only_op trivial)
  refine Only.bind (fun _ => ?_) trivial
  split
  · refine Only.bind (fun found => ?_) (only_op fun h => by cases h)
    trivial
  · trivial

/-! ## Cancellations -/

/-- A cancellation that returns leaves its event cancelled. -/
def CancelPost (_ : Nat) (request : Request) (events : Events) (result : Except Error Unit) : Prop :=
  match request with
  | .cancel target _ => result = .ok () → IsCancelled events target
  | .edit .. => True

section Safe

variable {zones : String → Option Zone} (pid : Nat)

theorem stable_true : Stable (fun _ : Events => True) KeepsCancelled fun _ => True :=
  fun _ _ _ _ _ => trivial

theorem stable_cancelPost (request : Request) (result : Except Error Unit) :
    Stable (fun _ : Events => True) KeepsCancelled fun events =>
      CancelPost pid request events result := by
  intro events events' _ hkp hps
  cases request with
  | edit target data attachmentsChanged checks => trivial
  | cancel target checks => exact fun hok => hkp target (hps hok)

theorem isCancelled_update {events : Events} {id : String} :
    IsCancelled (performKept pid (.updateEvent id { cancelled := some true } []) events).1 id := by
  show IsCancelled (perform pid (.updateEvent id { cancelled := some true } []) events).1 id
  unfold perform
  dsimp only
  split
  · rename_i hno
    exact fun event hfnd => by rw [hno] at hfnd; cases hfnd
  · rename_i event hfnd
    intro event' hfnd'
    have hid : event.id = id := key_of_findOne hfnd
    rw [List.foldl_nil, Collection.findOne_put,
      if_pos (show id = (event.applyOptions { cancelled := some true }).id from hid.symm)] at hfnd'
    injection hfnd' with heq
    rw [← heq]
    rfl

theorem safe_cancelEvent (target : String) (checks : CalendarEvent → Result Unit)
    (events : Events) :
    (cancelEvent target checks).Safe performKept (fun _ => True) KeepsCancelled pid
      (CancelPost pid (.cancel target checks)) events := by
  refine Prog.Safe.op_bind stable_true stable_true trivial trivial fun events _ _ =>
    ⟨keepsCancelled_performKept pid (c := .fetchEvent target) trivial events, ?_⟩
  refine Prog.Safe.check (fun event hfnd => ?_) fun _ _ h => by cases h
  refine Prog.Safe.check (fun _ _ => ?_) fun _ _ h => by cases h
  have hfnd : events.findOne target = some event := okOr_eq_ok.mp hfnd
  split
  · rename_i hcan
    -- the event that was read is the one that is stored
    intro _ event' hfnd'
    rw [show events.findOne target = some event' from hfnd'] at hfnd
    injection hfnd with heq
    rw [heq]
    exact hcan
  · refine Prog.Safe.op_bind stable_true stable_true trivial trivial fun events _ _ =>
      ⟨keepsCancelled_performKept pid (c := .updateEvent event.id { cancelled := some true } [])
        (fun h => by cases h) events, ?_⟩
    have hid : event.id = target := key_of_findOne hfnd
    have hset : IsCancelled (performKept pid (.updateEvent event.id { cancelled := some true } [])
        events).1 target := hid ▸ isCancelled_update pid
    exact fun _ => hset

theorem safe_program (request : Request) (events : Events) :
    (request.program zones).Safe performKept (fun _ => True) KeepsCancelled pid
      (CancelPost pid request) events := by
  cases request with
  | cancel target checks => exact safe_cancelEvent pid target checks events
  | edit target data attachmentsChanged checks =>
    exact Prog.Only.safe (fun c events hnev _ => keepsCancelled_performKept pid hnev events)
      (only_editEvent zones target data attachmentsChanged checks) events

end Safe

/-- **A cancelled event stays cancelled**, in every interleaving in which no edit writes over a
cancelled event. -/
theorem cancelled_stays {zones : String → Option Zone} {events : Events}
    {before after : List (Requests × Event Request)} {sys sys' : Requests}
    (hbefore : Run (Requests.exec zones) NoOverwrite (idle events) before sys) {pid : Nat}
    {target : String} {checks : CalendarEvent → Result Unit}
    (hcompleted : sys.returned pid = some (.cancel target checks, .ok ()))
    (hafter : Run (Requests.exec zones) NoOverwrite sys after sys') :
    ∀ event, sys'.store.findOne target = some event → event.cancelled = true := by
  have hrun := (hbefore.append hafter).congr (exec_eq_kept zones)
  have hsafe : System.AllSafe performKept (fun _ => True) KeepsCancelled CancelPost sys' :=
    System.safe_of_run stable_true (fun pid => stable_cancelPost pid)
      (fun pid request events _ _ => safe_program pid request events) trivial
      (hrun.mono fun _ event _ => show System.Admits (fun _ => True) _ event by
        cases event <;> trivial)
  exact hsafe.returned (System.returned_of_run hafter hcompleted) rfl

namespace Overwritten

def store : Events := Collection.empty.put (dailyEvent firstPass)

def edit : Request := .edit "E" { title := some "Early shift" } false fun _ => .ok ()

def cancel : Request := .cancel "E" fun _ => .ok ()

/-- The edit has read the event when it is cancelled. -/
def before : List (Event Request) := [.start 0 edit, .step 0, .start 1 cancel, .step 1, .step 1]

def cancelled : Requests := execAll (Requests.exec someZones) (idle store) before

/-- The edit writes it back. -/
def after : Requests := (Requests.exec someZones cancelled (.step 0)).1

theorem completed : cancelled.returned 1 = some (cancel, .ok ()) := rfl

end Overwritten

open Overwritten in
/-- An edit that has read the event before it is cancelled undoes the cancellation. -/
theorem edit_undoes_cancellation : ¬∀ (zones : String → Option Zone) (events : Events)
    (before after : List (Requests × Event Request)) (sys sys' : Requests) (pid : Nat)
    (target : String) (checks : CalendarEvent → Result Unit),
    Run (Requests.exec zones) (fun _ _ => True) (idle events) before sys →
      sys.returned pid = some (.cancel target checks, .ok ()) →
        Run (Requests.exec zones) (fun _ _ => True) sys after sys' →
          ∀ event, sys'.store.findOne target = some event → event.cancelled = true := by
  intro hall
  have hcancelled : ∀ event, after.store.findOne "E" = some event → event.cancelled = true :=
    hall someZones store _ _ cancelled after 1 "E" _ (Run.of_admitsAll (by decide)) completed
      (.cons trivial (.nil _))
  have hfound : (after.store.findOne "E").map CalendarEvent.cancelled = some false := by decide
  obtain ⟨event, hevent, hflag⟩ := map_eq_some_iff.mp hfound
  rw [hcancelled event hevent] at hflag
  cases hflag

namespace LateEdit

open Overwritten

def cancelled : Requests :=
  execAll (Requests.exec someZones) (idle store) [.start 1 cancel, .step 1, .step 1]

theorem completed : cancelled.returned 1 = some (cancel, .ok ()) := rfl

end LateEdit

open LateEdit in
/-- An edit that starts after the cancellation is refused. -/
theorem cancelled_stays_late_edit : ((execAll (Requests.exec someZones) cancelled
      [.start 0 Overwritten.edit, .step 0]).store.findOne "E").all
        (fun event => event.cancelled) = true :=
  (Option.all_eq_true _ _).mpr (cancelled_stays (Run.of_admitsAll (by decide)) completed
    (Run.of_admitsAll (by decide)))

end SlogaBackend.Calendar
