import SlogaBackend.Payments.Events

/-!
# A settled event stays out of the queue

Handling an event ends with a write of its state, and the write is unconditional. A run
that failed looks first whether another has settled the event in the meantime, and then
writes. These are two calls, and between them the event can be settled: the write that
follows puts it back into the queue (`settled_event_requeued`). The sweep does not even
look again before it records that Stripe no longer has the event.

`settled_event_stays` says that this is all that can go wrong. Where nobody settles an
event between a run's last read that found it open and the failure which that run then
records, a settled event stays settled, in every interleaving of deliveries and sweeps.

## Ghosts

`settles` counts the writes that left an event settled. A worker's `found` are the events
it has ever found open, and `foundAt` is the count when it last did.
-/

namespace SlogaBackend.Payments

/-! ## The watched log -/

/-- What is outside the log: the engine's part of an attempt, Stripe, and failures. -/
structure EventsOutside where
  process : Nat → StripeEvent → Step
  getEvent : Nat → String → Except StripeError StripeEvent
  outage : Nat → Option Error

structure EventWorld where
  events : PaymentEvents
  outside : EventsOutside
  tick : Nat
  settles : String → Nat
  found : Nat → String → Bool
  foundAt : Nat → String → Nat

namespace EventWorld

/-- The log without a failure. -/
def reach (c : EventCall) (w : EventWorld) : PaymentEvents × EventAnswer c :=
  match c with
  | .insertIfAbsent e =>
    ((insertPaymentEventIfAbsent e w.events).1, .ok (insertPaymentEventIfAbsent e w.events).2)
  | .fetch id => (w.events, .ok (w.events.get id))
  | .setState id state lastError => setPaymentEventState id state lastError w.events
  | .fetchFailed maxAttempts limit =>
    (w.events, .ok (fetchFailedPaymentEvents maxAttempts limit w.events))
  | .fetchByState state before limit =>
    (w.events, .ok (fetchPaymentEventsByState state before limit w.events))
  | .process event _ => (w.events, w.outside.process w.tick event)
  | .getEvent id => (w.events, w.outside.getEvent w.tick id)

/-- The failure a call to an unreachable log answers with. -/
def failed : (c : EventCall) → Error → Option (EventAnswer c)
  | .insertIfAbsent _, e => some (.error e)
  | .fetch _, e => some (.error e)
  | .setState _ _ _, e => some (.error e)
  | .fetchFailed _ _, e => some (.error e)
  | .fetchByState _ _ _, e => some (.error e)
  | .process _ _, _ => none
  | .getEvent _, _ => none

def answered (c : EventCall) (w : EventWorld) : PaymentEvents × EventAnswer c :=
  match (w.outside.outage w.tick).bind (failed c) with
  | some answer => (w.events, answer)
  | none => w.reach c

/-- The events that a call and its answer show to be open. -/
def open? : (c : EventCall) → EventAnswer c → String → Bool
  | .fetch id, answer, id' =>
    match (answer : Result (Option PaymentEvent)) with
    | .ok row => id' = id && !row.any fun row => row.state.settled
    | .error _ => false
  | .fetchFailed _ _, answer, id' =>
    match (answer : Result (List PaymentEvent)) with
    | .ok rows => rows.any fun row => row.id = id'
    | .error _ => false
  | .fetchByState .received _ _, answer, id' =>
    match (answer : Result (List PaymentEvent)) with
    | .ok rows => rows.any fun row => row.id = id'
    | .error _ => false
  | _, _, _ => false

/-- The events that a call and its answer settle. -/
def settles? : (c : EventCall) → EventAnswer c → String → Bool
  | .insertIfAbsent e, answer, id =>
    match (answer : Result Bool) with
    | .ok inserted => inserted && id = e.id && e.state.settled
    | .error _ => false
  | .setState id' state _, answer, id =>
    match (answer : Result Unit) with
    | .ok () => id = id' && state.settled
    | .error _ => false
  | _, _, _ => false

/-- A call on the log; the ghosts follow. -/
def perform (pid : Nat) (c : EventCall) (w : EventWorld) : EventWorld × EventAnswer c :=
  ({ events := (w.answered c).1
     outside := w.outside
     tick := w.tick + 1
     settles := fun id => if settles? c (w.answered c).2 id then w.settles id + 1 else w.settles id
     found := Function.update w.found pid fun id => open? c (w.answered c).2 id || w.found pid id
     foundAt := Function.update w.foundAt pid fun id =>
       if open? c (w.answered c).2 id then w.settles id else w.foundAt pid id },
    (w.answered c).2)

def start (events : PaymentEvents) (outside : EventsOutside) : EventWorld :=
  ⟨events, outside, 0, fun _ => 0, fun _ _ => false, fun _ _ => 0⟩

end EventWorld

/-! ## Runs -/

/-- What is asked of a worker. -/
inductive EventRun where
  | deliver (event : StripeEvent) (nowMs : Int)
  | redrive (nowMs : Int)

def dispatch (expectLivemode : Bool) : EventRun → Dispatch Unit
  | .deliver event nowMs => do
    let _ ← handleEvent expectLivemode event nowMs
    return ()
  | .redrive nowMs => do
    let _ ← redriveEvents expectLivemode nowMs ⟨0, 0⟩
    return ()

/-- Workers over one event log. The mode that is expected may differ from run to run. -/
abbrev Dispatches := System EventWorld (Bool × EventRun) Error EventCall EventAnswer Unit

def Dispatches.exec : Dispatches → Event (Bool × EventRun) → Dispatches × Unit :=
  System.exec EventWorld.perform fun request => dispatch request.1 request.2

/-- Where a failure is recorded, nobody has settled the event since this worker last found
it open. -/
def EventWorld.Undisturbed (pid : Nat) (c : EventCall) (w : EventWorld) : Prop :=
  match c with
  | .setState id .failed _ => w.foundAt pid id = w.settles id
  | _ => True

instance (pid : Nat) (w : EventWorld) : ∀ c, Decidable (w.Undisturbed pid c)
  | .setState id .failed _ => inferInstanceAs (Decidable (w.foundAt pid id = w.settles id))
  | .setState _ .received _ => isTrue trivial
  | .setState _ .processed _ => isTrue trivial
  | .setState _ .ignored _ => isTrue trivial
  | .insertIfAbsent _ => isTrue trivial
  | .fetch _ => isTrue trivial
  | .fetchFailed _ _ => isTrue trivial
  | .fetchByState _ _ _ => isTrue trivial
  | .process _ _ => isTrue trivial
  | .getEvent _ => isTrue trivial

def Dispatches.Admits (permits : Nat → EventCall → EventWorld → Prop) :
    Dispatches → Event (Bool × EventRun) → Prop :=
  System.StepAdmits (fun _ => True) permits

instance (permits : Nat → EventCall → EventWorld → Prop) [∀ pid c w, Decidable (permits pid c w)]
    (sys : Dispatches) (event : Event (Bool × EventRun)) :
    Decidable (Dispatches.Admits permits sys event) :=
  inferInstanceAs (Decidable (System.StepAdmits _ _ _ _))

/-! ## What a call does -/

/-- What a call does to the log: nothing, an event is inserted, or the state of one is
written. -/
inductive EventStep (c : EventCall) (w : EventWorld) : Prop
  | same (hevents : (w.answered c).1 = w.events)
      (hsettles : ∀ id, EventWorld.settles? c (w.answered c).2 id = false)
  | inserted (e : PaymentEvent) (hcall : c = .insertIfAbsent e) (hnone : w.events.get e.id = none)
      (hevents : (w.answered c).1 = w.events.insert e.id e)
      (hsettles : ∀ id, EventWorld.settles? c (w.answered c).2 id =
        (decide (id = e.id) && e.state.settled))
  | written (id : String) (state : PaymentEventState) (lastError : Option String)
      (row : PaymentEvent) (hcall : c = .setState id state lastError)
      (hget : w.events.get id = some row)
      (hevents : (w.answered c).1 = w.events.insert id
        { row with
          state := state
          attempts := saturatingSuccU32 row.attempts
          lastError := lastError })
      (hsettles : ∀ id', EventWorld.settles? c (w.answered c).2 id' =
        (decide (id' = id) && state.settled))

theorem eventStep (c : EventCall) (w : EventWorld) : EventStep c w := by
  cases hout : (w.outside.outage w.tick).bind (EventWorld.failed c) with
  | some answer =>
    have hans : w.answered c = (w.events, answer) := by
      unfold EventWorld.answered
      rw [hout]
    obtain ⟨e, -, hfail⟩ := bind_eq_some_iff.mp hout
    refine .same (by rw [hans]) fun id => ?_
    rw [hans]
    cases c with
    | process event nowMs | getEvent id => exact absurd hfail (by simp [EventWorld.failed])
    | insertIfAbsent e | setState id state lastError =>
      cases hfail
      rfl
    | fetch id | fetchFailed maxAttempts limit | fetchByState state before limit => rfl
  | none =>
    have hans : w.answered c = w.reach c := by
      unfold EventWorld.answered
      rw [hout]
    cases c with
    | insertIfAbsent e =>
      cases hg : w.events.get e.id with
      | some row =>
        have hrch : w.reach (.insertIfAbsent e) = (w.events, .ok false) := by
          simp [EventWorld.reach, insertPaymentEventIfAbsent, hg]
        refine .same (by rw [hans, hrch]) fun id => ?_
        rw [hans, hrch]
        rfl
      | none =>
        have hrch : w.reach (.insertIfAbsent e) = (w.events.insert e.id e, .ok true) := by
          simp [EventWorld.reach, insertPaymentEventIfAbsent, hg]
        refine .inserted e rfl hg (by rw [hans, hrch]) fun id => ?_
        rw [hans, hrch]
        simp [EventWorld.settles?]
    | setState id state lastError =>
      cases hg : w.events.get id with
      | none =>
        have hrch : w.reach (.setState id state lastError) = (w.events, .error .notFound) := by
          simp [EventWorld.reach, setPaymentEventState, hg]
        refine .same (by rw [hans, hrch]) fun id => ?_
        rw [hans, hrch]
        rfl
      | some row =>
        have hrch : w.reach (.setState id state lastError) = (w.events.insert id
              { row with
                state := state
                attempts := saturatingSuccU32 row.attempts
                lastError := lastError }, .ok ()) := by
          simp [EventWorld.reach, setPaymentEventState, hg]
        refine .written id state lastError row rfl hg (by rw [hans, hrch]) fun id' => ?_
        rw [hans, hrch]
        rfl
    | fetch id | fetchFailed maxAttempts limit | fetchByState state before limit
    | process event nowMs | getEvent id =>
      exact .same (by rw [hans]; rfl) fun _ => rfl

/-- Rows are stored under their ids. -/
def EventsKeyed (events : PaymentEvents) : Prop := ∀ id row, events.get id = some row → row.id = id

variable {row : PaymentEvent} {id : String} {w : EventWorld}

theorem mem_eventsOldestFirst {rows : List PaymentEvent} {limit : Int}
    (h : row ∈ eventsOldestFirst rows limit) : row ∈ rows := by
  unfold eventsOldestFirst at h
  split at h
  · exact (List.mem_insertionSort _).mp h
  · exact (List.mem_insertionSort _).mp (List.mem_of_mem_take h)

/-- A listed row is stored, in the state asked for. -/
theorem listed_open {events : PaymentEvents} (hkeye : EventsKeyed events) {P : PaymentEvent → Bool}
    {limit : Int} (hop : ∀ row, P row = true → row.state.settled = false)
    (h : ((eventsOldestFirst (events.values.filter P) limit).any fun row => row.id = id) = true)
    (hg : events.get id = some row) : row.state.settled = false := by
  obtain ⟨row', hmem, hid⟩ := any_eq_true.mp h
  obtain ⟨hval, hP⟩ := mem_filter.mp (mem_eventsOldestFirst hmem)
  obtain ⟨key, hkey⟩ := mem_values.mp hval
  obtain rfl : key = id := (hkeye key row' hkey).symm.trans (of_decide_eq_true hid)
  obtain rfl := some.inj (hkey.symm.trans hg)
  exact hop row' hP

variable {c : EventCall}

theorem open_of_shown (hkeye : EventsKeyed w.events)
    (hshow : EventWorld.open? c (w.answered c).2 id = true) :
    (∀ row, w.events.get id = some row → row.state.settled = false) ∧
      (w.answered c).1 = w.events ∧ EventWorld.settles? c (w.answered c).2 id = false := by
  cases hout : (w.outside.outage w.tick).bind (EventWorld.failed c) with
  | some answer =>
    have hans : w.answered c = (w.events, answer) := by
      unfold EventWorld.answered
      rw [hout]
    obtain ⟨e, -, hfail⟩ := bind_eq_some_iff.mp hout
    rw [hans] at hshow
    cases c with
    | process event nowMs | getEvent id => exact absurd hfail (by simp [EventWorld.failed])
    | insertIfAbsent e | setState id state lastError =>
      exact absurd hshow (by simp [EventWorld.open?])
    | fetch id | fetchFailed maxAttempts limit =>
      cases hfail
      exact absurd hshow (by simp [EventWorld.open?])
    | fetchByState state before limit =>
      cases hfail
      cases state <;> exact absurd hshow (by simp [EventWorld.open?])
  | none =>
    have hans : w.answered c = w.reach c := by
      unfold EventWorld.answered
      rw [hout]
    rw [hans] at hshow ⊢
    cases c with
    | process event nowMs | getEvent id | insertIfAbsent e | setState id state lastError =>
      exact absurd hshow (by simp [EventWorld.open?])
    | fetch id' =>
      refine ⟨fun row hg => ?_, rfl, rfl⟩
      simp only [EventWorld.open?, EventWorld.reach, and_eq_true, decide_eq_true_eq,
        not_eq_true'] at hshow
      obtain ⟨rfl, hrow⟩ := hshow
      rw [hg] at hrow
      exact hrow
    | fetchFailed maxAttempts limit =>
      refine ⟨fun row hg => listed_open hkeye (fun row hP => ?_) hshow hg, rfl, rfl⟩
      obtain ⟨hst, -⟩ := of_decide_eq_true hP
      rw [hst]
      rfl
    | fetchByState state before limit =>
      cases state with
      | received =>
        refine ⟨fun row hg => listed_open hkeye (fun row hP => ?_) hshow hg, rfl, rfl⟩
        obtain ⟨hst, -⟩ := of_decide_eq_true hP
        rw [hst]
        rfl
      | processed | ignored | failed => exact absurd hshow (by simp [EventWorld.open?])

/-! ## What a worker may do -/

/-- A worker records a failure only of an event it has found open, and never takes a
handling back. -/
def mayWrite (found : String → Bool) : EventCall → Prop
  | .setState id .failed _ => found id = true
  | .setState _ .received _ => False
  | _ => True

def eventConduct : Discipline EventCall EventAnswer (String → Bool) where
  init _ := false
  note found c answer id := EventWorld.open? c answer id || found id
  allowed := mayWrite
  possible _ _ := True

section Programs

variable {α β : Type} {found : String → Bool}

/-- The program obeys, and forgets nothing. -/
def Tracks (found : String → Bool) (p : Dispatch α) : Prop :=
  p.Obeys eventConduct (fun found' _ => ∀ id, found id = true → found' id = true) found

theorem tracks_done (result : Except Error α) : Tracks found (.done result) := fun _ h => h

theorem tracks_call {rest : EventAnswer c → Dispatch α} (hall : mayWrite found c)
    (hrs : ∀ answer, Tracks (eventConduct.note found c answer) (rest answer)) :
    Tracks found (.call c rest) := by
  refine ⟨hall, fun answer _ => (hrs answer).mono fun found' _ hmn id hid => ?_⟩
  refine hmn id ?_
  show (EventWorld.open? c answer id || found id) = true
  rw [hid, Bool.or_true]

theorem Tracks.bind {p : Dispatch α} {k : α → Dispatch β} (hp : Tracks found p)
    (hk : ∀ found' a, (∀ id, found id = true → found' id = true) → Tracks found' (k a)) :
    Tracks found (p.bind k) := by
  refine Obeys.bind (hp.mono fun found' r hmn => ?_)
  cases r with
  | ok a => exact (hk found' a hmn).mono fun found'' _ hmn' id hid => hmn' id (hmn id hid)
  | error e => exact hmn

theorem Tracks.attempt {p : Dispatch α} (hp : Tracks found p) : Tracks found p.attempt :=
  Obeys.attempt hp

theorem tracks_insertIfAbsent (e : PaymentEvent) : Tracks found (insertIfAbsent e) :=
  tracks_call trivial fun _ => tracks_done _

theorem tracks_setState {id : String} {state : PaymentEventState} {lastError : Option String}
    (hall : mayWrite found (.setState id state lastError)) :
    Tracks found (setState id state lastError) :=
  tracks_call hall fun _ => tracks_done _

theorem tracks_isSettled {id : String} {k : Bool → Dispatch α}
    (htr : ∀ found', (∀ id, found id = true → found' id = true) → Tracks found' (k true))
    (hfal : ∀ found', (∀ id, found id = true → found' id = true) → found' id = true →
      Tracks found' (k false)) : Tracks found ((isSettled id).bind k) := by
  refine tracks_call trivial fun answer => ?_
  have hmn : ∀ id', found id' = true → eventConduct.note found (.fetch id) answer id' = true := by
    intro id' hid
    show (EventWorld.open? (.fetch id) answer id' || found id') = true
    rw [hid, Bool.or_true]
  match answer, hmn with
  | .error e, _ => exact tracks_done _
  | .ok row, hmn =>
    show Tracks _ (k (row.any fun row => row.state.settled))
    cases hset : row.any fun row => row.state.settled with
    | true => exact htr _ hmn
    | false =>
      refine hfal _ hmn ?_
      show (EventWorld.open? (.fetch id) (.ok row) id || found id) = true
      simp [EventWorld.open?, hset]

theorem tracks_recordLivemodeMismatch (event : StripeEvent) (nowMs : Int) :
    Tracks found (recordLivemodeMismatch event nowMs) := by
  refine (tracks_insertIfAbsent _).bind fun found1 inserted _ => ?_
  split
  · exact tracks_done _
  · refine tracks_isSettled (fun found2 _ => tracks_done _) fun found2 _ _ => ?_
    exact tracks_setState trivial

section

variable (expectLivemode : Bool)

theorem tracks_handleEvent (event : StripeEvent) (nowMs : Int) :
    Tracks found (handleEvent expectLivemode event nowMs) := by
  unfold handleEvent
  split
  · exact (tracks_recordLivemodeMismatch event nowMs).bind fun _ _ _ => tracks_done _
  · refine (tracks_insertIfAbsent _).bind fun found1 inserted _ => ?_
    cases inserted
    case' false => refine tracks_isSettled (fun _ _ => tracks_done _) fun found1 _ _ => ?_
    -- either way the event is processed now
    all_goals
      refine tracks_call trivial fun step => ?_
      cases step with
      | processed =>
        show Tracks _ ((setState event.id .processed none).bind _)
        refine Tracks.bind ?_ fun _ _ _ => tracks_done _
        exact tracks_setState trivial
      | ignored =>
        show Tracks _ ((setState event.id .ignored none).bind _)
        refine Tracks.bind ?_ fun _ _ _ => tracks_done _
        exact tracks_setState trivial
      | retry reason =>
        refine tracks_isSettled (fun _ _ => tracks_done _) fun found2 _ hfnd => ?_
        refine Tracks.bind ?_ fun _ _ _ => tracks_done _
        exact tracks_setState hfnd

theorem tracks_redriveRow (nowMs : Int) {row : PaymentEvent}
    (hfnd : found row.id = true) (tally : Tally) :
    Tracks found (redriveRow expectLivemode nowMs row tally) := by
  refine Tracks.bind (tracks_call trivial fun _ => tracks_done _) fun found1 answer hmn => ?_
  split
  · refine (tracks_handleEvent expectLivemode _ nowMs).attempt.bind fun found2 r _ => ?_
    split <;> exact tracks_done _
  · refine Tracks.bind (Tracks.attempt ?_) fun found2 r _ => ?_
    · exact tracks_setState (hmn _ hfnd)
    · split <;> exact tracks_done _

theorem tracks_redriveRows (nowMs : Int) {rows : List PaymentEvent}
    (hfnd : ∀ row ∈ rows, found row.id = true) (tally : Tally) :
    Tracks found (redriveRows expectLivemode nowMs rows tally) := by
  induction rows generalizing found tally with
  | nil => exact tracks_done _
  | cons row rows ih =>
    refine (tracks_redriveRow expectLivemode nowMs (hfnd row mem_cons_self) tally).bind
      fun found' tally' hmn => ih (fun row' hmem => ?_) tally'
    exact hmn _ (hfnd row' (mem_cons_of_mem _ hmem))

end

theorem tracks_queried {rows : EventAnswer c → Result (List PaymentEvent)}
    (hall : mayWrite found c) (hop : ∀ answer listed, rows answer = .ok listed → ∀ row ∈ listed,
      EventWorld.open? c answer row.id = true)
    {tally : Tally} {k : List PaymentEvent × Tally → Dispatch α}
    (hk : ∀ found' listed tally', (∀ id, found id = true → found' id = true) →
      (∀ row ∈ listed, found' row.id = true) → Tracks found' (k (listed, tally'))) :
    Tracks found ((queried c rows tally).bind k) := by
  refine tracks_call hall fun answer => ?_
  have hmn : ∀ id, found id = true → eventConduct.note found c answer id = true := by
    intro id hid
    show (EventWorld.open? c answer id || found id) = true
    rw [hid, Bool.or_true]
  cases hrw : rows answer with
  | ok listed =>
    simp only [Prog.bind, hrw]
    refine hk _ listed tally hmn fun row hmem => ?_
    show (EventWorld.open? c answer row.id || found row.id) = true
    rw [hop answer listed hrw row hmem, Bool.true_or]
  | error e =>
    simp only [Prog.bind, hrw]
    exact hk _ [] tally.error hmn fun _ hmem => by cases hmem

theorem tracks_redriveEvents (expectLivemode : Bool) (nowMs : Int) (tally : Tally) :
    Tracks found (redriveEvents expectLivemode nowMs tally) := by
  have hlst : ∀ (listed : List PaymentEvent) (row : PaymentEvent), row ∈ listed →
      (listed.any fun row' => row'.id = row.id) = true := fun listed row hmem =>
    any_eq_true.mpr ⟨row, hmem, by simp⟩
  refine tracks_queried (c := .fetchFailed maxEventAttempts sweepBatch) trivial
    (fun answer listed hrw row hmem => ?_) fun found1 failed tally1 _ hfail => ?_
  · obtain rfl : answer = .ok listed := hrw
    exact hlst listed row hmem
  · refine tracks_queried
      (c := .fetchByState .received (nowMs - strandedEventAfterMs) sweepBatch) trivial
      (fun answer listed hrw row hmem => ?_) fun found2 stranded tally2 hmn hstran => ?_
    · obtain rfl : answer = .ok listed := hrw
      exact hlst listed row hmem
    · refine tracks_redriveRows expectLivemode nowMs (fun row hmem => ?_) tally2
      rcases mem_append.mp hmem with hmem | hmem
      · exact hmn _ (hfail row hmem)
      · exact hstran row hmem

theorem tracks_dispatch (expectLivemode : Bool) (run : EventRun) :
    Tracks found (dispatch expectLivemode run) := by
  cases run with
  | deliver event nowMs =>
    exact (tracks_handleEvent expectLivemode event nowMs).bind fun _ _ _ => tracks_done _
  | redrive nowMs =>
    exact (tracks_redriveEvents expectLivemode nowMs _).bind fun _ _ _ => tracks_done _

end Programs

/-! ## The invariant -/

/-- What a worker has found open, and nobody has settled since, is open. -/
structure EventWorld.Inv (w : EventWorld) : Prop where
  keyed : EventsKeyed w.events
  le : ∀ pid id, w.foundAt pid id ≤ w.settles id
  opened : ∀ pid id, w.found pid id = true → w.foundAt pid id = w.settles id →
    ∀ row, w.events.get id = some row → row.state.settled = false

theorem EventWorld.inv_start {events : PaymentEvents} (hkeye : EventsKeyed events)
    (outside : EventsOutside) : (EventWorld.start events outside).Inv :=
  ⟨hkeye, fun _ _ => le_refl _, fun _ _ hfnd => absurd hfnd (by simp [EventWorld.start])⟩

theorem eventsKeyed_perform (hkeye : EventsKeyed w.events) (pid : Nat) (c : EventCall) :
    EventsKeyed (w.perform pid c).1.events := by
  show EventsKeyed (w.answered c).1
  cases eventStep c w with
  | same heve _ => rw [heve]; exact hkeye
  | inserted e _ _ heve _ => rw [heve]; exact forall_insert hkeye rfl
  | written id state lastError row _ hg heve _ =>
    rw [heve]
    exact forall_insert hkeye (hkeye id row hg)

theorem open_kept (hop : ∀ row, w.events.get id = some row → row.state.settled = false)
    (hsett : EventWorld.settles? c (w.answered c).2 id = false) {row' : PaymentEvent}
    (hg' : (w.answered c).1.get id = some row') : row'.state.settled = false := by
  cases eventStep c w with
  | same heve _ =>
    rw [heve] at hg'
    exact hop row' hg'
  | inserted e _ _ heve hset | written id' state lastError row _ hg heve hset =>
    rw [heve, get_insert] at hg'
    rw [hset] at hsett
    split at hg'
    · rename_i hid
      cases hg'
      simpa [hid] using hsett
    · exact hop row' hg'

theorem EventWorld.Inv.perform (h : w.Inv) (pid : Nat) (c : EventCall) :
    (w.perform pid c).1.Inv := by
  have hgro : ∀ id, w.settles id ≤ (w.perform pid c).1.settles id := by
    intro id
    show w.settles id ≤
      if EventWorld.settles? c (w.answered c).2 id then w.settles id + 1 else w.settles id
    split <;> omega
  refine ⟨eventsKeyed_perform h.keyed pid c, fun pid' id => ?_, fun pid' id hfnd hat row' hg' => ?_⟩
  · show Function.update w.foundAt pid _ pid' id ≤ _
    by_cases hpid : pid' = pid
    · subst hpid
      rw [update_self]
      have hle := h.le pid' id
      have hgr := hgro id
      split <;> omega
    · rw [update_of_ne hpid]
      exact (h.le pid' id).trans (hgro id)
  · by_cases hshow : pid' = pid ∧ EventWorld.open? c (w.answered c).2 id = true
    · obtain ⟨rfl, hshow⟩ := hshow
      obtain ⟨hop, -, hsett⟩ := open_of_shown h.keyed hshow
      exact open_kept hop hsett hg'
    · -- this worker has not read the event, so that it found it open earlier
      have hbef : w.found pid' id = true ∧ w.foundAt pid' id = (w.perform pid c).1.settles id := by
        by_cases hpid : pid' = pid
        · subst hpid
          have hnot : EventWorld.open? c (w.answered c).2 id = false := by simpa using hshow
          have hfnd' : Function.update w.found pid' _ pid' id = true := hfnd
          have hat' : Function.update w.foundAt pid' _ pid' id = _ := hat
          rw [update_self] at hfnd' hat'
          rw [hnot, Bool.false_or] at hfnd'
          rw [hnot] at hat'
          exact ⟨hfnd', hat'⟩
        · have hfnd' : Function.update w.found pid _ pid' id = true := hfnd
          have hat' : Function.update w.foundAt pid _ pid' id = _ := hat
          rw [update_of_ne hpid] at hfnd' hat'
          exact ⟨hfnd', hat'⟩
      obtain ⟨hfnd0, hat0⟩ := hbef
      have hle := h.le pid' id
      have hset : (w.perform pid c).1.settles id =
          if EventWorld.settles? c (w.answered c).2 id then w.settles id + 1 else w.settles id := rfl
      cases hsett : EventWorld.settles? c (w.answered c).2 id with
      | true =>
        rw [hsett, if_pos rfl] at hset
        omega
      | false =>
        rw [hsett] at hset
        exact open_kept (h.opened pid' id hfnd0 (hat0.trans hset)) hsett hg'

/-- **A settled row stays settled**: whoever records a failure has found the event open, and
nobody has settled it since. -/
theorem settled_perform (h : w.Inv) {pid : Nat}
    (hall : mayWrite (w.found pid) c) (hper : w.Undisturbed pid c)
    (hg : w.events.get id = some row) (hset : row.state.settled = true) :
    ∃ row', (w.perform pid c).1.events.get id = some row' ∧ row'.state.settled = true := by
  show ∃ row', (w.answered c).1.get id = some row' ∧ _
  cases eventStep c w with
  | same heve _ => exact ⟨row, by rw [heve, hg], hset⟩
  | inserted e _ hno heve _ =>
    have hne : id ≠ e.id := by
      rintro rfl
      cases hno.symm.trans hg
    exact ⟨row, by rw [heve, get_insert, if_neg hne, hg], hset⟩
  | written id' state lastError row' hcl hg' heve _ =>
    subst hcl
    by_cases hid : id = id'
    · subst hid
      refine ⟨_, by rw [heve, get_insert_self], ?_⟩
      cases state with
      | processed | ignored => rfl
      | received => exact hall.elim
      | failed => exact absurd (h.opened pid id hall hper row hg) (by simp [hset])
    · exact ⟨row, by rw [heve, get_insert, if_neg hid, hg], hset⟩

/-! ## Runs -/

/-- The log is watched, and every worker goes on as it may. -/
abbrev Dispatches.Watched (sys : Dispatches) : Prop :=
  System.Lawful eventConduct EventWorld.found (fun _ _ _ => True) EventWorld.Inv sys

theorem Dispatches.watched_exec {permits : Nat → EventCall → EventWorld → Prop}
    {sys : Dispatches} {event : Event (Bool × EventRun)}
    (hadm : Dispatches.Admits permits sys event) (h : sys.Watched) :
    (Dispatches.exec sys event).1.Watched :=
  System.lawful_exec (fun _ _ _ => update_self ..)
    (fun _ _ _ _ hq => update_of_ne hq ..)
    (fun request _ => (tracks_dispatch request.1 request.2).mono fun _ _ _ => trivial)
    (fun pid c _ hinv _ _ => ⟨hinv.perform pid c, trivial⟩) sys event hadm h

theorem Dispatches.settled_exec {sys : Dispatches} {event : Event (Bool × EventRun)}
    (hadm : Dispatches.Admits (fun pid c w => w.Undisturbed pid c) sys event) (h : sys.Watched)
    (hg : sys.store.events.get id = some row) (hset : row.state.settled = true) :
    ∃ row', (Dispatches.exec sys event).1.store.events.get id = some row' ∧
      row'.state.settled = true := by
  obtain hsm | ⟨pid, request, rfl, -, hnx⟩ | ⟨pid, request, c, rest, rfl, hpr, hnx⟩ |
    ⟨pid, request, c, rest, rfl, -, hnx⟩ := exec_cases EventWorld.perform
      (fun request => dispatch request.1 request.2) sys event
  · exact ⟨row, (congrArg (fun sys => sys.store.events.get id) hsm).trans hg, hset⟩
  · exact ⟨row, (congrArg (fun sys => sys.store.events.get id) hnx).trans hg, hset⟩
  · have hcl : sys.nextCall pid = some c := by
      simp only [System.nextCall, hpr]
      rfl
    obtain ⟨row', hg', hset'⟩ := settled_perform h.store (h.allowed hcl) (hadm c hcl) hg hset
    exact ⟨row', (congrArg (fun sys => sys.store.events.get id) hnx).trans hg', hset'⟩
  · exact ⟨row, (congrArg (fun sys => sys.store.events.get id) hnx).trans hg, hset⟩

/-- **A settled event is never queued again.** Take any run of deliveries and sweeps over an
event log, in which nobody settles an event between a worker's last read that found it open
and the failure that worker then records. Once an event is settled it is settled in every
later state, and no sweep handles it again. -/
theorem settled_event_stays {events : PaymentEvents} (hkeyed : EventsKeyed events)
    {outside : EventsOutside} {sys sys' : Dispatches}
    (hreached : Reachable Dispatches.exec (Dispatches.Admits fun pid c w => w.Undisturbed pid c)
      (idle (EventWorld.start events outside)) sys)
    (hlater : Reachable Dispatches.exec (Dispatches.Admits fun pid c w => w.Undisturbed pid c)
      sys sys')
    {id : String} {row : PaymentEvent} (hget : sys.store.events.get id = some row)
    (hsettled : row.state.settled = true) :
    ∃ row', sys'.store.events.get id = some row' ∧ row'.state.settled = true ∧
      ∀ nowMs, ¬ row'.redriven nowMs := by
  obtain ⟨h, hrun⟩ := hreached
  obtain ⟨h', hrun'⟩ := hlater
  have hwatched : sys.Watched :=
    hrun.invariant (P := Dispatches.Watched) (fun _ _ hadm hsys => Dispatches.watched_exec hadm hsys)
      (System.lawful_idle (EventWorld.inv_start hkeyed outside) fun _ => rfl)
  have hlast := hrun'.invariant (P := fun sys => sys.Watched ∧
      ∃ row, sys.store.events.get id = some row ∧ row.state.settled = true)
    (fun sys event hadm ⟨hsys, row, hget, hsettled⟩ =>
      ⟨Dispatches.watched_exec hadm hsys, Dispatches.settled_exec hadm hsys hget hsettled⟩)
    ⟨hwatched, row, hget, hsettled⟩
  obtain ⟨-, row', hget', hsettled'⟩ := hlast
  exact ⟨row', hget', hsettled', fun nowMs => PaymentEvent.not_redriven hsettled' nowMs⟩

/-! ## Two deliveries of one event -/

namespace TwoDeliveries

def event : StripeEvent := ⟨"evt_1", "checkout.session.completed", true⟩

/-- The first attempt succeeds; one that comes later does not reach Stripe. -/
def outside : EventsOutside where
  process tick _ :=
    if tick < 2 then .processed else .retry "stripe get_checkout_session: transport error"
  getEvent _ _ := .ok event
  outage _ := none

def start : Dispatches := idle (EventWorld.start ∅ outside)

def delivery (pid : Nat) : Event (Bool × EventRun) := .start pid (true, .deliver event 1000)

/-- One delivery, to its end, and then a second. -/
def inTurn : List (Event (Bool × EventRun)) := [delivery 1, .step 1, .step 1, .step 1]

def again : List (Event (Bool × EventRun)) := [delivery 2, .step 2, .step 2]

/-- The second delivery fails while the first is being recorded: it looks, the first records
its success, and the second its failure. -/
def overlapping : List (Event (Bool × EventRun)) :=
  [delivery 1, delivery 2, .step 1, .step 1, .step 2, .step 2, .step 2, .step 2, .step 1]

def handled : Dispatches := execAll Dispatches.exec start inTurn
def repeated : Dispatches := execAll Dispatches.exec handled again
def recorded : Dispatches := execAll Dispatches.exec start overlapping
def requeued : Dispatches := execAll Dispatches.exec recorded [.step 2]

def left (sys : Dispatches) : Option (PaymentEventState × Nat) :=
  (sys.store.events.get "evt_1").map fun row => (row.state, row.attempts)

end TwoDeliveries

open TwoDeliveries in
/-- The event is handled, and a second delivery finds it settled. -/
theorem settled_event_stays_repeated :
    ∃ row, repeated.store.events.get "evt_1" = some row ∧ row.state.settled = true ∧
      ∀ nowMs, ¬ row.redriven nowMs := by
  have hreached : Reachable Dispatches.exec (Dispatches.Admits fun pid c w => w.Undisturbed pid c)
      start handled := Reachable.of_admitsAll (by decide)
  have hlater : Reachable Dispatches.exec (Dispatches.Admits fun pid c w => w.Undisturbed pid c)
      handled repeated := Reachable.of_admitsAll (by decide)
  have hleft : left handled = some (.processed, 1) := by decide
  obtain ⟨row, hget, hrow⟩ := map_eq_some_iff.mp hleft
  have hstate : row.state = .processed := congrArg Prod.fst hrow
  exact settled_event_stays (fun id row hget => absurd hget (by simp)) hreached hlater hget
    (by rw [hstate]; rfl)

open TwoDeliveries in
/-- **A settled event is queued again.** The second delivery has looked and found the event
open; the first settles it; then the second records its failure, and the next sweep takes
the event up. -/
theorem settled_event_requeued :
    Reachable Dispatches.exec (Dispatches.Admits fun _ _ _ => True) start recorded ∧
      left recorded = some (.processed, 1) ∧
      Reachable Dispatches.exec (Dispatches.Admits fun _ _ _ => True) recorded requeued ∧
      ∃ row, requeued.store.events.get "evt_1" = some row ∧ ∀ nowMs, row.redriven nowMs := by
  refine ⟨Reachable.of_admitsAll (by decide), by decide, Reachable.of_admitsAll (by decide), ?_⟩
  have hleft : left requeued = some (.failed, 2) := by decide
  obtain ⟨row, hget, hrow⟩ := map_eq_some_iff.mp hleft
  have hstate : row.state = .failed := congrArg Prod.fst hrow
  have hattempts : row.attempts = 2 := congrArg Prod.snd hrow
  exact ⟨row, hget, fun nowMs => .inl ⟨hstate, by rw [hattempts]; decide⟩⟩

end SlogaBackend.Payments
