import SlogaBackend.Payments.Store
import SlogaBackend.Lib.Discipline

/-!
# The payments engine: leases, voids and the ledger

The programs of `engine.rs` and `engine/prot.rs`, call by call. This module has what
checkout, fulfilment and reversal share: taking and releasing a lease, writing the leased
order, asking Stripe for a refund, voiding a paid order, the dispute listing of a
membership, the public badge, and the ledger side of an order.

A function that holds an order under its lease changes its copy as it writes, and the
caller goes on with the changed copy also when the function fails (the reconcile resume
does, after disputes it could not read). `Work` is that shape: a program over a leased
order that ends with a result and the copy as it then is.

Loops that retry a compare-and-swap recurse on the tries left.
-/

namespace SlogaBackend.Payments

/-! ## Programs over a leased order -/

/-- A program that works on a leased order. -/
def Work (α : Type) := Leased → Engine (Result α × Leased)

namespace Work

instance : Monad Work where
  pure a := fun leased => Prog.done (.ok (.ok a, leased))
  bind w k := fun leased => (w leased).bind fun r =>
    match r with
    | (.ok a, leased) => k a leased
    | (.error e, leased) => Prog.done (.ok (.error e, leased))

/-- A program that does not touch the leased order. -/
def ofEngine {α : Type} (p : Engine α) : Work α := fun leased =>
  p.attempt.bind fun r => Prog.done (.ok (r, leased))

instance : MonadLift (Prog Error Call Answer) Work := ⟨ofEngine⟩

/-- The leased order as it is now. -/
def leased : Work Leased := fun leased => Prog.done (.ok (.ok leased, leased))

def order : Work PaymentOrder := fun leased => Prog.done (.ok (.ok leased.order, leased))

def fail {α : Type} (e : Error) : Work α := fun leased => Prog.done (.ok (.error e, leased))

/-- Go on after a failure. -/
def attempt {α : Type} (w : Work α) : Work (Result α) := fun leased =>
  (w leased).bind fun r => Prog.done (.ok (.ok r.1, r.2))

/-- Change the copy without writing it. -/
def edit (change : PaymentOrder → PaymentOrder) : Work Unit := fun leased =>
  Prog.done (.ok (.ok (), { leased with order := change leased.order }))

/-- A step taken only under a condition. -/
def onlyIf (condition : Bool) (w : Work Unit) : Work Unit := if condition then w else pure ()

end Work

/-! ## Calls -/

def orders (op : OrderOp) : Engine op.Value :=
  (Prog.op (Call.orders op)).bind fun answer : Result op.Value => check answer

def memberships (op : MembershipOp) : Engine op.Value :=
  (Prog.op (Call.memberships op)).bind fun answer : Result op.Value => check answer

def numbers (op : NumberOp) : Engine op.Value :=
  (Prog.op (Call.numbers op)).bind fun answer : Result op.Value => check answer

def ledger (op : LedgerOp) : Engine op.Value :=
  (Prog.op (Call.ledger op)).bind fun answer : Result op.Value => check answer

def users (op : UserOp) : Engine op.Value :=
  (Prog.op (Call.users op)).bind fun answer : Result op.Value => check answer

/-- A Stripe call; its failure is a value. -/
def stripe (op : StripeOp) : Engine (Except StripeError op.Value) := Prog.op (Call.stripe op)

/-- `ProtSalesSettings::load_or_closed`. -/
def loadProtSettings : Engine ProtSalesSettings := Prog.op Call.protSettings

def failWith {α : Type} (e : Error) : Engine α := Prog.done (.error e)

/-- A Stripe call whose failure is the API error. -/
def stripeOrProviderError (op : StripeOp) : Engine op.Value :=
  (stripe op).bind fun answer => match answer with
    | .ok value => Prog.done (.ok value)
    | .error _ => failWith .paymentProviderError

/-! ## Leases and writes -/

/-- Take the lease on an order; `none` when another worker holds it. -/
def acquire (orderId : String) (nowMs : Int) : Engine (Option Leased) := do
  match ← orders (.acquire orderId nowMs (leaseToken nowMs)) with
  | some order => return some ⟨order, leaseToken nowMs⟩
  | none =>
    match ← orders (.fetch orderId) with
    | some _ => return none
    | none => failWith .notFound

/-- Release a lease; a failure only means that it runs out on its own. -/
def release (leased : Leased) : Engine Unit := do
  let _ ← (orders (.release leased.order.id leased.untilMs)).attempt
  return ()

/-- Work on an order under a lease just taken, then release it. -/
def underLease {α : Type} (leased : Leased) (work : Work α) : Engine (Result α × Leased) := do
  let (result, leased) ← work leased
  release leased
  return (result, leased)

/-- Write the leased order with `change` applied. -/
def Work.write (change : PaymentOrder → PaymentOrder) : Work Unit := fun leased => do
  let next := change leased.order
  match ← (orders (.update next leased.order.state)).attempt with
  | .ok true => return (.ok (), { leased with order := { next with version := next.version + 1 } })
  | .ok false =>
    -- read for the log only
    let _ ← (orders (.fetch next.id)).attempt
    return (.error .internalError, leased)
  | .error e => return (.error e, leased)

/-! ## Refunds -/

inductive RefundAsked where
  | done
  | alreadyRefunded
  | unsettled
  | refused
  deriving DecidableEq

/-- How Stripe's answer to a refund stands. -/
def refundAsked : Except StripeError Refund → Result RefundAsked
  | .ok refund =>
    .ok <| match refund.status with
      | some "failed" => .refused
      | some "canceled" => .refused
      | some "succeeded" => .done
      | _ => .unsettled
  | .error (.api _ (some code) _ _) =>
    if code = "charge_already_refunded" then .ok .alreadyRefunded
    else .error .paymentProviderError
  | .error _ => .error .paymentProviderError

/-- Ask Stripe to refund a payment in full under `key`. -/
def askRefund (paymentIntent : String) (key : RefundKey) : Engine RefundAsked :=
  (stripe (.createRefund paymentIntent key)).bind fun answer => check (refundAsked answer)

/-- Refund a payment for an order we are voiding; `false` when Stripe refuses. -/
def refundForVoid (paymentIntent orderId : String) : Engine Bool := do
  match ← askRefund paymentIntent (.voidOrder orderId) with
  | .refused => return false
  | .done => return true
  | .alreadyRefunded => return true
  | .unsettled => return true

/-! ## Accounts and badges -/

/-- Whether the account exists and is not deleted. -/
def buyerIsLive (userId : String) : Engine Bool := do
  match ← (users (.fetch userId)).attempt with
  | .ok user => return !user.deleted
  | .error .notFound => return false
  | .error e => failWith e

def badgeSyncRetries : Nat := 5

/-- The rounds of a badge sync: write, then verify. -/
def syncBadgeRounds (userId : String) : Nat → Engine Unit
  | 0 => failWith .internalError
  | rounds + 1 => do
    let badge := (← memberships (.fetch userId)).bind CipherMembership.publicBadge
    match ← (users (.fetch userId)).attempt with
    | .error .notFound => return ()
    | .error e => failWith e
    | .ok user =>
      let badge := if user.deleted then none else badge
      if user.cipher = badge then return ()
      else do
        users (.setCipher userId badge)
        syncBadgeRounds userId rounds

/-- Recompute and publish the public badge from the membership. -/
def syncUserBadge (userId : String) : Engine Unit := syncBadgeRounds userId badgeSyncRetries

/-! ## Disputes -/

def pendingKind : ReversalPending → ReverseKind
  | .refund => .refund
  | .disputeLost => .disputeLost

/-- A dispute on the payment is open, or a lost one is still to be applied. -/
def isDisputed (order : PaymentOrder) : Bool :=
  !order.openDisputes.isEmpty || order.reversalPending == some .disputeLost

/-- The open disputes once `kind` on `dispute` is applied. -/
def disputesAfter (order : PaymentOrder) (kind : ReverseKind) (dispute : Option String) :
    List String :=
  match kind, dispute with
  | .disputeOpened, some id =>
    if id ∈ order.openDisputes then order.openDisputes else order.openDisputes ++ [id]
  | .disputeWon, some id => order.openDisputes.filter fun known => known != id
  | .disputeLost, some id => order.openDisputes.filter fun known => known != id
  | _, _ => order.openDisputes

def membershipRetries : Nat := 5

/-- The membership with an order listed as disputed, or taken out. -/
def withDisputeListing (m : CipherMembership) (orderId : String) (listed : Bool) :
    CipherMembership :=
  { m with disputedOrders :=
      if listed then m.disputedOrders ++ [orderId]
      else m.disputedOrders.filter fun id => id != orderId }

def disputeListingTries (userId orderId : String) (listed : Bool) : Nat → Engine Bool
  | 0 => failWith .internalError
  | tries + 1 => do
    match ← memberships (.fetch userId) with
    | none => return false
    | some m =>
      if orderId ∉ m.orders then return false
      else if decide (orderId ∈ m.disputedOrders) = listed then return true
      else do
        let written : Bool ← memberships (.update (withDisputeListing m orderId listed) m.version)
        if written then return true
        else disputeListingTries userId orderId listed tries

/-- List an order in its membership's disputed orders, or take it out; whether the
membership holds the order. -/
def setDisputeListing (userId orderId : String) (listed : Bool) : Engine Bool :=
  disputeListingTries userId orderId listed membershipRetries

/-! ## The ledger side of an order -/

def protKeyPurchase (orderId : String) : String := "purchase:" ++ orderId

def walletBalance (userId : String) : Engine Int := do
  match ← ledger (.fetchAccount (Prot.protUserAccount userId)) with
  | some account => return account.balance
  | none => return 0

/-- Publishing reads the wallet; the event itself is not modelled. -/
def publishBalance (userId : String) : Engine Unit := do
  let _ ← (ledger (.fetchAccount (Prot.protUserAccount userId))).attempt
  return ()

/-- A posting written now is published. -/
def publishIfApplied (userId : String) : Prot.ProtApplyOutcome → Engine Unit
  | .applied _ => publishBalance userId
  | .alreadyApplied _ => pure ()

/-- After a credit committed, a deleted account has its wallet forfeited. -/
def forfeitIfDeleted (userId : String) (nowMs : Int) : Engine Unit := do
  if ← buyerIsLive userId then return ()
  else do
    let _ ← ledger (.forfeit userId nowMs)
    return ()

/-- Whether the purchase row of an order exists. -/
def purchaseApplied (orderId : String) : Engine Bool := do
  let entry ← ledger (.fetchEntry (protKeyPurchase orderId))
  return entry.isSome

/-- The credit of a paid Prot order. -/
def purchasePosting (order : PaymentOrder) (userId : String) (prot nowMs : Int) :
    Prot.ProtPosting where
  key := protKeyPurchase order.id
  kind := .purchase
  debit := Prot.protSysIssued
  credit := Prot.protUserAccount userId
  amount := .exact prot
  debitFloor := 0
  actor := Prot.protActorPayments
  reference := { Prot.ProtRef.default with orderId := some order.id }
  reason := none
  createdAt := nowMs

/-- Credit a paid Prot order. -/
def applyPurchase (order : PaymentOrder) (userId : String) (nowMs : Int) : Engine Unit := do
  match skuProt order.sku with
  | none => failWith .internalError
  | some prot => do
    let outcome ← ledger (.apply (purchasePosting order userId prot nowMs))
    publishIfApplied userId outcome
    forfeitIfDeleted userId nowMs

/-- The clawback of a purchase that credited `amount`. -/
def clawbackPosting (orderId userId : String) (amount nowMs : Int) : Prot.ProtPosting where
  key := Prot.protKeyClawback orderId
  kind := .clawback
  debit := Prot.protUserAccount userId
  credit := Prot.protSysClawed
  amount := .upTo amount
  debitFloor := 0
  actor := Prot.protActorPayments
  reference := { Prot.ProtRef.default with orderId := some orderId }
  reason := none
  createdAt := nowMs

/-- Claw a Prot purchase back, once. -/
def clawbackPurchase (orderId userId : String) (nowMs : Int) : Engine Unit := do
  match ← ledger (.fetchEntry (protKeyPurchase orderId)) with
  | none => return ()
  | some purchase =>
    match ← ledger (.fetchEntry (Prot.protKeyClawback orderId)) with
    | some _ => return ()
    | none => do
      let outcome ← ledger (.apply (clawbackPosting orderId userId purchase.amount nowMs))
      publishIfApplied userId outcome

def syncCipherProt (ps : ProtSalesSettings) (userId : String) (nowMs : Int) : Engine Unit := do
  if !ps.grantsActive then return ()
  else
    match ← ledger (.syncCipher userId nowMs) with
    | .nothing => return ()
    | .posted outcome => do
      publishIfApplied userId outcome
      forfeitIfDeleted userId nowMs
    | .overPosted _ _ => return ()

def syncAfterCipherFulfil (userId : String) (nowMs : Int) : Engine Unit := do
  let ps ← loadProtSettings
  let _ ← (syncCipherProt ps userId nowMs).attempt
  return ()

def publishIfMoved (userId : String) (amount : Int) : Engine Unit :=
  if 0 < amount then publishBalance userId else pure ()

/-- The downward sync after a reversal; whether a row was written now. -/
def clawbackCipherOrder (userId orderId : String) (nowMs : Int) : Engine Bool := do
  match ← ledger (.clawbackCipher userId orderId nowMs) with
  | some (.applied entry) => do
    publishIfMoved userId entry.amount
    return true
  | _ => return false

/-- Prot already spent when a clawback ran, over the rows of a membership. -/
def cipherProtShortfall (rows : List Prot.ProtLedgerEntry) : Int :=
  (rows.filter fun row => decide (row.kind = .clawback)).foldl
    (fun total row => clampI64 (total + row.shortfall.getD 0)) 0

/-- The ledger rows of a membership's current incarnation. -/
def incarnationRows (m : CipherMembership) : Engine (List Prot.ProtLedgerEntry) :=
  match m.orders.head? with
  | some base => ledger (.fetchByMembership base)
  | none => return []

def membershipShortfall (m : CipherMembership) : Engine Int := do
  let rows ← incarnationRows m
  return cipherProtShortfall rows

/-- Would clawing the membership back to `targetAfter` be covered? -/
def windowClawbackCovered (m : CipherMembership) (targetAfter : Int) : Engine Bool := do
  let rows ← incarnationRows m
  if 0 < cipherProtShortfall rows then return false
  else
    let needed := max (clampI64 (Prot.cipherProtPosted rows - targetAfter)) 0
    if needed = 0 then return true
    else do
      let balance ← walletBalance m.userId
      return decide (needed ≤ balance)

/-! ## Voids -/

inductive FulfilOutcome where
  | fulfilled
  | alreadyFulfilled
  | leaseHeld
  | voided (reason : VoidReason)
  | voidDeferred (reason : VoidReason)
  | notPaid
  | ignored

/-- The reason of a void, recorded before its refund. -/
def markVoid (reason : VoidReason) (o : PaymentOrder) : PaymentOrder :=
  { o with voidReason := some reason }

/-- A refused refund takes the mark back, and the country that came with it. -/
def unmarkVoid (previous : Option VoidReason) (o : PaymentOrder) : PaymentOrder :=
  { o with voidReason := previous, regionBlockedCountry := none }

def finishVoid (reason : VoidReason) (nowMs : Int) (o : PaymentOrder) : PaymentOrder :=
  { o with
    state := .voided
    voidReason := some reason
    reversedAt := some nowMs
    reversalPending := none }

/-- The refund of a void, its reason recorded first. -/
def refundVoid (reason : VoidReason) (paymentIntent : String) : Work Unit := do
  let order ← Work.order
  let previous := order.voidReason
  let markedNow := previous != some reason
  Work.onlyIf markedNow (Work.write (markVoid reason))
  if ← refundForVoid paymentIntent order.id then return ()
  else do
    Work.onlyIf markedNow (Work.write (unmarkVoid previous))
    Work.fail .paymentProviderError

/-- A lost dispute already took the money back. -/
def refundUnlessLost (reason : VoidReason) (order : PaymentOrder) : Work Unit :=
  if order.reversalPending = some .disputeLost then pure ()
  else
    match order.paymentIntentId with
    | none => Work.fail .internalError
    | some paymentIntent => refundVoid reason paymentIntent

/-- Void a paid order: refund it unless a dispute on it was lost, then record it voided.
While a dispute is open nothing is refunded or written. -/
def voidPaid (reason : VoidReason) (nowMs : Int) : Work FulfilOutcome := do
  let order ← Work.order
  if order.reversalPending ≠ some .disputeLost ∧ order.openDisputes ≠ [] then
    return .voidDeferred reason
  else do
    refundUnlessLost reason order
    Work.write (finishVoid reason nowMs)
    return .voided reason

/-- A purchase credited after the deletion's forfeit is clawed back. -/
def clawbackIfCredited (order : PaymentOrder) (userId : String) (nowMs : Int) : Engine Unit := do
  if order.sku.family = .prot then
    if ← purchaseApplied order.id then clawbackPurchase order.id userId nowMs
    else return ()
  else return ()

def deleteIfListed (order : PaymentOrder) (userId : String) : Engine Unit := do
  match ← memberships (.fetch userId) with
  | none => return ()
  | some m => if order.id ∈ m.orders then memberships (.delete userId) else return ()

/-- Void a paid order of a deleted account, with what a fulfilment racing the deletion
left of it. -/
def voidForDeletedAccount (buyer : Option String) (nowMs : Int) : Work FulfilOutcome := do
  let order ← Work.order
  match buyer with
  | none => voidPaid .accountDeleted nowMs
  | some userId => do
    clawbackIfCredited order userId nowMs
    deleteIfListed order userId
    voidPaid .accountDeleted nowMs

/-- Void a paid order from a country the family is not sold to. -/
def voidForRegion (country : String) (nowMs : Int) : Work FulfilOutcome := do
  Work.edit fun o => { o with regionBlockedCountry := some country }
  voidPaid .regionUnavailable nowMs

end SlogaBackend.Payments
