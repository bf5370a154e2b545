import SlogaBackend.Lib.Discipline
import SlogaBackend.Payments.Catalog

/-!
# Provider events

The event log of `models/payment_events` and the handling of events in `dispatch.rs`. An
event is stored once, under the id Stripe gave it, with the state its handling is in. A
webhook delivery handles it (`handleEvent`); the reconcile sweep handles again what failed
or was left behind (`redriveEvents`).

Only the calls on the event log are the log's own. What the rest of the engine makes of an
event (`process`) touches no stored event, so it is a call like the ones to Stripe: it ends
in a `Step`, and the log's programs go on with that.
-/

namespace SlogaBackend.Payments

/-! ## The event log -/

inductive PaymentEventState where
  | received
  | processed
  | ignored
  | failed
  deriving DecidableEq

structure PaymentEvent where
  id : String
  eventType : String
  livemode : Bool
  receivedAt : Int
  state : PaymentEventState
  /-- How many times handling has finished, successfully or not. -/
  attempts : Nat
  lastError : Option String

/-- Processed or ignored. -/
def PaymentEventState.settled : PaymentEventState → Bool
  | .processed => true
  | .ignored => true
  | .received => false
  | .failed => false

abbrev PaymentEvents := Table String PaymentEvent

def insertPaymentEventIfAbsent (e : PaymentEvent) (events : PaymentEvents) : PaymentEvents × Bool :=
  if (events.get e.id).isSome then (events, false) else (events.insert e.id e, true)

/-- `saturating_add(1)` on 32 bits. -/
def saturatingSuccU32 (n : Nat) : Nat := min (n + 1) (2 ^ 32 - 1)

def setPaymentEventState (id : String) (state : PaymentEventState) (lastError : Option String)
    (events : PaymentEvents) : PaymentEvents × Result Unit :=
  match events.get id with
  | some row =>
    (events.insert id
      { row with
        state := state
        attempts := saturatingSuccU32 row.attempts
        lastError := lastError }, .ok ())
  | none => (events, .error .notFound)

/-- Oldest first, ties by id. -/
def eventOlder (a b : PaymentEvent) : Prop :=
  a.receivedAt < b.receivedAt ∨ (a.receivedAt = b.receivedAt ∧ a.id ≤ b.id)

instance : DecidableRel eventOlder := fun _ _ => inferInstanceAs (Decidable (_ ∨ _))

def eventsOldestFirst (rows : List PaymentEvent) (limit : Int) : List PaymentEvent :=
  if limit = 0 then rows.insertionSort eventOlder
  else (rows.insertionSort eventOlder).take limit.natAbs

def fetchFailedPaymentEvents (maxAttempts : Nat) (limit : Int) (events : PaymentEvents) :
    List PaymentEvent :=
  eventsOldestFirst (events.values.filter fun row =>
    row.state = .failed ∧ row.attempts < maxAttempts) limit

def fetchPaymentEventsByState (state : PaymentEventState) (before limit : Int)
    (events : PaymentEvents) : List PaymentEvent :=
  eventsOldestFirst (events.values.filter fun row =>
    row.state = state ∧ row.receivedAt < before) limit

/-! ## Calls -/

/-- The parts of a Stripe event that its recording reads. -/
structure StripeEvent where
  id : String
  eventType : String
  livemode : Bool

/-- How one processing attempt ended. -/
inductive Step where
  | processed
  | ignored
  | retry (reason : String)

inductive EventCall where
  | insertIfAbsent (e : PaymentEvent)
  | fetch (id : String)
  | setState (id : String) (state : PaymentEventState) (lastError : Option String)
  | fetchFailed (maxAttempts : Nat) (limit : Int)
  | fetchByState (state : PaymentEventState) (before limit : Int)
  /-- The engine's part of an attempt. -/
  | process (event : StripeEvent) (nowMs : Int)
  | getEvent (id : String)

abbrev EventAnswer : EventCall → Type
  | .insertIfAbsent _ => Result Bool
  | .fetch _ => Result (Option PaymentEvent)
  | .setState _ _ _ => Result Unit
  | .fetchFailed _ _ => Result (List PaymentEvent)
  | .fetchByState _ _ _ => Result (List PaymentEvent)
  | .process _ _ => Step
  | .getEvent _ => Except StripeError StripeEvent

abbrev Dispatch (α : Type) := Prog Error EventCall EventAnswer α

/-! ## Handling one event -/

inductive EventOutcome where
  | processed
  | ignored
  | duplicate
  | retry

def insertIfAbsent (e : PaymentEvent) : Dispatch Bool :=
  (op (EventCall.insertIfAbsent e)).bind fun answer : Result Bool => check answer

def setState (id : String) (state : PaymentEventState) (lastError : Option String) :
    Dispatch Unit :=
  (op (EventCall.setState id state lastError)).bind fun answer : Result Unit =>
    check answer

/-- Whether the stored event is processed or ignored. -/
def isSettled (id : String) : Dispatch Bool :=
  (op (EventCall.fetch id)).bind fun answer : Result (Option PaymentEvent) =>
    (check answer).bind fun row => pure (row.any fun row => row.state.settled)

/-- Record an event of the other mode as ignored. -/
def recordLivemodeMismatch (event : StripeEvent) (nowMs : Int) : Dispatch Unit := do
  let inserted ← insertIfAbsent
    { id := event.id
      eventType := event.eventType
      livemode := event.livemode
      receivedAt := nowMs
      state := .ignored
      attempts := 1
      lastError := none }
  if inserted then return ()
  else if ← isSettled event.id then return ()
  else setState event.id .ignored none

/-- Handle an event: what is settled is answered without acting again. -/
def handleEvent (expectLivemode : Bool) (event : StripeEvent) (nowMs : Int) :
    Dispatch EventOutcome :=
  if event.livemode ≠ expectLivemode then do
    recordLivemodeMismatch event nowMs
    return .ignored
  else do
    let inserted ← insertIfAbsent
      { id := event.id
        eventType := event.eventType
        livemode := event.livemode
        receivedAt := nowMs
        state := .received
        attempts := 0
        lastError := none }
    let settled ← if inserted then pure false else isSettled event.id
    if settled then return .duplicate
    else
      match ← (op (EventCall.process event nowMs) : Dispatch Step) with
      | .processed => do
        setState event.id .processed none
        return .processed
      | .ignored => do
        setState event.id .ignored none
        return .ignored
      | .retry reason => do
        -- another delivery may have settled it in the meantime
        if ← isSettled event.id then return .duplicate
        else do
          setState event.id .failed (some reason)
          return .retry

/-! ## The sweep -/

def maxEventAttempts : Nat := 10
def sweepBatch : Int := 200
def strandedEventAfterMs : Int := 10 * 60 * 1000

/-- Counts of one sweep. -/
structure Tally where
  redriven : Nat
  errors : Nat

def Tally.error (tally : Tally) : Tally := { tally with errors := tally.errors + 1 }

/-- The error text of a failed Stripe call. -/
def stripeText (call : String) : StripeError → String
  | .transport _ => "stripe " ++ call ++ ": transport error"
  | .api status (some code) _ _ =>
    "stripe " ++ call ++ ": HTTP " ++ toString status ++ " (" ++
      String.ofList ((code.toList.filter fun c => c.isAlphanum || c == '_').take 40) ++ ")"
  | .api status none _ _ => "stripe " ++ call ++ ": HTTP " ++ toString status
  | .decode _ => "stripe " ++ call ++ ": unexpected response"

/-- A row that is handled again; the reason when Stripe no longer has its event. -/
def refetched (row : PaymentEvent) : Except StripeError StripeEvent → Except String StripeEvent
  | .ok event => if event.id = row.id then .ok event else .error "stripe returned a different event"
  | .error e => .error (stripeText "get_event" e)

def redriveRow (expectLivemode : Bool) (nowMs : Int) (row : PaymentEvent) (tally : Tally) :
    Dispatch Tally := do
  let answer ← (op (EventCall.getEvent row.id) : Dispatch (Except StripeError StripeEvent))
  match refetched row answer with
  | .ok event =>
    match ← (handleEvent expectLivemode event nowMs).attempt with
    | .ok .retry => return tally.error
    | .ok _ => return { tally with redriven := tally.redriven + 1 }
    | .error _ => return tally.error
  | .error reason =>
    match ← (setState row.id .failed (some reason)).attempt with
    | .ok () => return tally.error
    | .error _ => return tally.error.error

def redriveRows (expectLivemode : Bool) (nowMs : Int) : List PaymentEvent → Tally → Dispatch Tally
  | [], tally => pure tally
  | row :: rows, tally => do
    let tally ← redriveRow expectLivemode nowMs row tally
    redriveRows expectLivemode nowMs rows tally

/-- The rows of a query, and none when it fails. -/
def queried (c : EventCall) (rows : EventAnswer c → Result (List PaymentEvent)) (tally : Tally) :
    Dispatch (List PaymentEvent × Tally) :=
  (op c).bind fun answer =>
    match rows answer with
    | .ok rows => pure (rows, tally)
    | .error _ => pure ([], tally.error)

/-- Failed events, and received ones that a crash left behind. -/
def redriveEvents (expectLivemode : Bool) (nowMs : Int) (tally : Tally) : Dispatch Tally := do
  let (failed, tally) ← queried (.fetchFailed maxEventAttempts sweepBatch) id tally
  let (stranded, tally) ←
    queried (.fetchByState .received (nowMs - strandedEventAfterMs) sweepBatch) id tally
  redriveRows expectLivemode nowMs (failed ++ stranded) tally

/-- The events a sweep at `nowMs` handles again. -/
def PaymentEvent.redriven (row : PaymentEvent) (nowMs : Int) : Prop :=
  (row.state = .failed ∧ row.attempts < maxEventAttempts) ∨
    (row.state = .received ∧ row.receivedAt < nowMs - strandedEventAfterMs)

theorem PaymentEvent.not_redriven {row : PaymentEvent} (h : row.state.settled = true)
    (nowMs : Int) : ¬ row.redriven nowMs := by
  rintro (⟨hst, -⟩ | ⟨hst, -⟩)
  · rw [hst] at h
    exact absurd h (by decide)
  · rw [hst] at h
    exact absurd h (by decide)

end SlogaBackend.Payments
