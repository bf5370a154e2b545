import SlogaBackend.Payments.Fulfilment

/-!
# Watched runs of the engine

A run of the engine is watched by ghosts that no program reads.

* `Local` is what one worker knows from its own calls: the orders it holds under lease,
  as its last acquire or write left them, the membership it read last, the order it
  fetched last without a lease, which numbers it saw with which orders, a number that
  nobody held when it looked, and the order it inserted. Taking a lease forgets what was
  known of numbers before.
* `holders` names the worker whose acquire of an order succeeded last and which has not
  released it since.
* `incarnation` counts the memberships inserted for a user, `recorded` the writes that
  moved the disputes of an order, and `accepted` lists the orders for which Stripe has
  taken a refund that the engine asked for as a void.

`World.perform` makes a call on the store and lets the ghosts follow.
-/

namespace SlogaBackend.Payments

/-! ## What a worker knows -/

structure Local where
  copies : Table String PaymentOrder
  read : Option CipherMembership
  seen : Option PaymentOrder
  numbers : Table String Nat
  /-- A number that no membership held when it was looked up. -/
  unheld : Option Nat
  /-- An order whose void reason this worker recorded over none, and for which it has not
  been answered anything but a refusal since. -/
  mark : Option String
  /-- An order this worker inserted and has not taken the lease of yet. -/
  placed : Option String

def Local.init : Local := ⟨∅, none, none, ∅, none, none, none⟩

/-- The write that records a void reason over none. -/
def marksVoid (before : Option PaymentOrder) (o : PaymentOrder) : Bool :=
  before.any (fun c => c.voidReason.isNone) && o.voidReason.isSome

def Local.noteOrder (l : Local) : (op : OrderOp) → Result op.Value → Local
  | .insert o, .ok () => { l with placed := some o.id }
  | .fetch _, .ok (some o) => { l with seen := some o }
  | .acquire id _ _, .ok (some o) =>
    { l with
      copies := l.copies.insert id o
      numbers := l.numbers.erase id
      unheld := none
      mark := none
      placed := none }
  | .release id _, _ => { l with copies := l.copies.erase id }
  | .update o _, .ok true =>
    { l with
      copies := l.copies.insert o.id { o with version := o.version + 1 }
      mark := if marksVoid (l.copies.get o.id) o then some o.id
        else if o.voidReason.isNone then none else l.mark }
  | _, _ => l

def Local.noteMembership (l : Local) : (op : MembershipOp) → Result op.Value → Local
  | .fetch _, .ok m => { l with read := m }
  | .fetchByNumber number, .ok none => { l with unheld := some number }
  | .insert _, _ => { l with unheld := none }
  | .update _ _, _ => { l with unheld := none }
  | _, _ => l

def Local.noteNumber (l : Local) : (op : NumberOp) → Result op.Value → Local
  | .claim orderId _, .ok (some number) => { l with numbers := l.numbers.insert orderId number }
  | .fetchByOrder orderId, .ok (some number) =>
    { l with numbers := l.numbers.insert orderId number }
  | .fetchRowByOrder orderId, .ok (some row) =>
    { l with numbers := l.numbers.insert orderId row.number }
  | .release orderId, _ => { l with numbers := l.numbers.erase orderId }
  | _, _ => l

def Local.noteStripe (l : Local) : (op : StripeOp) → Except StripeError op.Value → Local
  | .createRefund _ (.voidOrder _), answer =>
    if refundAsked answer = .ok .refused then l else { l with mark := none }
  | _, _ => l

/-- What a call and its answer add. -/
def Local.note (l : Local) : (c : Call) → Answer c → Local
  | .orders op, answer => l.noteOrder op answer
  | .memberships op, answer => l.noteMembership op answer
  | .numbers op, answer => l.noteNumber op answer
  | .stripe op, answer => l.noteStripe op answer
  | .ledger _, _ => l
  | .users _, _ => l
  | .protSettings, _ => l

/-! ### What a call leaves alone -/

theorem Local.noteMembership_frame (l : Local) (op : MembershipOp) (answer : Result op.Value) :
    (l.noteMembership op answer).copies = l.copies ∧ (l.noteMembership op answer).seen = l.seen ∧
      (l.noteMembership op answer).numbers = l.numbers ∧
      (l.noteMembership op answer).mark = l.mark ∧
      (l.noteMembership op answer).placed = l.placed := by
  unfold noteMembership
  split <;> exact ⟨rfl, rfl, rfl, rfl, rfl⟩

theorem Local.noteNumber_frame (l : Local) (op : NumberOp) (answer : Result op.Value) :
    (l.noteNumber op answer).copies = l.copies ∧ (l.noteNumber op answer).read = l.read ∧
      (l.noteNumber op answer).seen = l.seen ∧ (l.noteNumber op answer).unheld = l.unheld ∧
      (l.noteNumber op answer).mark = l.mark ∧ (l.noteNumber op answer).placed = l.placed := by
  unfold noteNumber
  split <;> exact ⟨rfl, rfl, rfl, rfl, rfl, rfl⟩

theorem Local.noteOrder_read (l : Local) (op : OrderOp) (answer : Result op.Value) :
    (l.noteOrder op answer).read = l.read := by
  unfold noteOrder
  split <;> rfl

variable {op : OrderOp} {number : Nat}

theorem Local.noteOrder_numbers {l : Local} {answer : Result op.Value} {orderId : String}
    (h : (l.noteOrder op answer).numbers.get orderId = some number) :
    l.numbers.get orderId = some number := by
  unfold noteOrder at h
  split at h
  case h_3 =>
    rw [get_erase] at h
    split at h
    · cases h
    · exact h
  all_goals exact h

theorem Local.noteOrder_unheld {l : Local} {answer : Result op.Value}
    (h : (l.noteOrder op answer).unheld = some number) : l.unheld = some number := by
  unfold noteOrder at h
  split at h
  case h_3 => cases h
  all_goals exact h

theorem Local.noteStripe_frame (l : Local) (op : StripeOp) (answer : Except StripeError op.Value) :
    l.noteStripe op answer = l ∨ l.noteStripe op answer = { l with mark := none } := by
  unfold noteStripe
  split
  · split
    · exact .inl rfl
    · exact .inr rfl
  · exact .inl rfl

/-! ## The world -/

structure World where
  store : Store
  locals : Nat → Local
  holders : Table String Nat
  incarnation : String → Nat
  /-- The incarnation of the user's membership when the worker read it last. -/
  readIn : Nat → Nat
  recorded : String → Nat
  /-- The dispute writes of the order when the worker fetched it last. -/
  seenAt : Nat → Nat
  accepted : List String

namespace World

def holdersAfter (pid : Nat) (holders : Table String Nat) : (c : Call) → Answer c → Table String Nat
  | .orders (.acquire id _ _), answer =>
    match (answer : Result (Option PaymentOrder)) with
    | .ok (some _) => holders.insert id pid
    | _ => holders
  | .orders (.release id _), answer =>
    match (answer : Result Unit) with
    | .ok () => if holders.get id = some pid then holders.erase id else holders
    | _ => holders
  | _, _ => holders

/-- A membership was inserted. -/
def incarnationAfter (incarnation : String → Nat) : (c : Call) → Answer c → String → Nat
  | .memberships (.insert m), answer =>
    match (answer : Result Bool) with
    | .ok true => Function.update incarnation m.userId (incarnation m.userId + 1)
    | _ => incarnation
  | _, _ => incarnation

def readInAfter (pid : Nat) (incarnation : String → Nat) (readIn : Nat → Nat) :
    (c : Call) → Answer c → Nat → Nat
  | .memberships (.fetch userId), answer =>
    match (answer : Result (Option CipherMembership)) with
    | .ok _ => Function.update readIn pid (incarnation userId)
    | .error _ => readIn
  | _, _ => readIn

/-- A write moved the disputes of an order. -/
def recordedAfter (orders : PaymentOrders) (recorded : String → Nat) :
    (c : Call) → Answer c → String → Nat
  | .orders (.update o _), answer =>
    match (answer : Result Bool) with
    | .ok true =>
      if (orders.get o.id).any fun row =>
          row.openDisputes == o.openDisputes && row.reversalPending == o.reversalPending then
        recorded
      else Function.update recorded o.id (recorded o.id + 1)
    | _ => recorded
  | _, _ => recorded

def seenAtAfter (pid : Nat) (recorded : String → Nat) (seenAt : Nat → Nat) :
    (c : Call) → Answer c → Nat → Nat
  | .orders (.fetch id), answer =>
    match (answer : Result (Option PaymentOrder)) with
    | .ok (some _) => Function.update seenAt pid (recorded id)
    | _ => seenAt
  | _, _ => seenAt

/-- Stripe took the refund: it said so, or it failed after taking it. -/
def refundAccepted (taken : Bool) (answer : Except StripeError Refund) : Bool :=
  match answer with
  | .ok _ => refundAsked answer != .ok .refused
  | .error _ => taken

def acceptedAfter (taken : Bool) (accepted : List String) : (c : Call) → Answer c → List String
  | .stripe (.createRefund _ (.voidOrder orderId)), answer =>
    if refundAccepted taken answer then orderId :: accepted else accepted
  | _, _ => accepted

variable (sha256 : List UInt8 → List UInt8)

/-- One call of a worker. -/
def perform (pid : Nat) (c : Call) (w : World) : World × Answer c :=
  let answer := (w.store.perform sha256 c).2
  ({ store := (w.store.perform sha256 c).1
     locals := Function.update w.locals pid ((w.locals pid).note c answer)
     holders := holdersAfter pid w.holders c answer
     incarnation := incarnationAfter w.incarnation c answer
     readIn := readInAfter pid w.incarnation w.readIn c answer
     recorded := recordedAfter w.store.orders w.recorded c answer
     seenAt := seenAtAfter pid w.recorded w.seenAt c answer
     accepted := acceptedAfter (w.store.outside.refundTaken w.store.tick) w.accepted c answer },
    answer)

/-- A store nobody has worked on yet. -/
def start (store : Store) : World :=
  ⟨store, fun _ => Local.init, ∅, fun _ => 0, fun _ => 0, fun _ => 0, fun _ => 0, []⟩

end World

/-! ## Systems of deliveries -/

/-- A watched system of deliveries, each under the settings it was started with. -/
abbrev Deliveries := System World (PaymentsSettings × Delivery) Error Call Answer Unit

namespace Deliveries

/-- One event of a watched system. -/
def exec (sha256 : List UInt8 → List UInt8) : Deliveries → Event (PaymentsSettings × Delivery) →
    Deliveries × Unit :=
  System.exec (World.perform sha256) fun request => deliver request.1 request.2

/-- Runs whose every call meets a condition on the worker, the call and the world it is
made in. -/
def Admits (permits : Nat → Call → World → Prop) :
    Deliveries → Event (PaymentsSettings × Delivery) → Prop :=
  System.StepAdmits (fun _ => True) permits

instance (permits : Nat → Call → World → Prop) [∀ pid c w, Decidable (permits pid c w)]
    (sys : Deliveries) (event : Event (PaymentsSettings × Delivery)) :
    Decidable (Admits permits sys event) := System.StepAdmits.decidable _ _ sys event

/-- Nobody works on the store yet. -/
def idle (store : Store) : Deliveries := System.idle (World.start store)

end Deliveries

end SlogaBackend.Payments
