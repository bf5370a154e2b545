import SlogaBackend.Payments.Reversals

/-!
# The payments engine: fulfilment, expiry and account deletion

Fulfilment takes a completed session to its order: mark it paid, check that it still
applies, apply it once, publish the badge, record it fulfilled, and apply a reversal that
came first. The test whether the order is applied already runs before every
precondition, so a resume neither refunds nor numbers an order again.

`Delivery` lists what is delivered to the engine, and `deliver` is the program of a
delivery.
-/

namespace SlogaBackend.Payments

/-! ## Sessions -/

/-- Why a completed session cannot be applied to its order. -/
inductive SessionMismatch where
  /-- Not provably the order's own session. -/
  | notOurs
  /-- The order's own session, in another amount or currency. -/
  | terms
  deriving DecidableEq

/-- Whether a session is provably the order's, in our mode. -/
def sessionIsOurs (order : PaymentOrder) (session : CheckoutSession) (s : PaymentsSettings) :
    Bool :=
  (match order.checkoutSessionId with
    | some id => id == session.id
    | none => session.metadataOrderId == some order.id) &&
  (session.metadataOrderId.all fun named => named == order.id) &&
  session.livemode == s.expectLivemode &&
  (match order.paymentIntentId, session.paymentIntent with
    | some stored, some reported => stored == reported
    | _, _ => true) &&
  (match order.userId, session.clientReferenceId with
    | some userId, some reference => userId == reference
    | _, _ => true)

/-- Whether a session has the order's amount and currency. -/
def sessionTermsMatch (order : PaymentOrder) (session : CheckoutSession) : Bool :=
  session.amountTotal == some order.amountCents &&
    (order.currency == "usd" && session.currency == some order.currency)

/-- Why a completed session cannot be applied to this order, if it cannot. -/
def sessionMismatch (order : PaymentOrder) (session : CheckoutSession) (s : PaymentsSettings) :
    Option SessionMismatch :=
  if !sessionIsOurs order session s then some .notOurs
  else if sessionTermsMatch order session then none
  else if session.metadataOrderId = some order.id then some .terms
  else some .notOurs

/-! ## Applying an order -/

/-- Whether a membership step finished or the order has to be voided. -/
inductive Applied where
  | done
  | void (reason : VoidReason)

/-- Whether the release of one of these orders' number is running. -/
def releasePendingOn (number : Nat) : List String → Engine Bool
  | [] => return false
  | orderId :: rest => do
    match ← numbers (.fetchRowByOrder orderId) with
    | none => releasePendingOn number rest
    | some row =>
      if row.number = number ∧ row.releasePendingAt.isSome then return true
      else releasePendingOn number rest

/-- Whether a refund decided to release the membership's number and has not finished. -/
def numberReleasePending (m : CipherMembership) : Engine Bool := releasePendingOn m.number m.orders

/-- Why a paid order no longer applies, if it does not. -/
def preconditionFailure (s : PaymentsSettings) (order : PaymentOrder)
    (membership : Option CipherMembership) : Option VoidReason :=
  if order.sku.family = .cipher ∧ s.closeAtMs.any (fun close => decide (close ≤ order.createdAt))
  then some .salesClosed
  else
    match order.sku with
    | .cipherNew _ => if membership.any (·.isActive) then some .stale else none
    | .cipherUpgrade fromTier _ =>
      match membership with
      | some m =>
        if m.isActive ∧ m.tier = fromTier then
          if m.disputedOrders.isEmpty then none else some .disputeOpen
        else some .stale
      | none => some .stale
    | .protPack _ _ _ => if order.openDisputes.isEmpty then none else some .disputeOpen
    | .protExact _ => if order.openDisputes.isEmpty then none else some .disputeOpen

/-- Claim a number; the error tells an unseeded table from a sold out one. -/
def claimNumber (s : PaymentsSettings) (orderId : String) : Engine (Option Nat) := do
  let claimed : Option Nat ← numbers (.claim orderId s.cap)
  match claimed with
  | some number => return some number
  | none => do
    let seeded : Nat ← numbers .count
    if seeded < s.cap then failWith .internalError else return none

/-- The number of a new purchase: the one it holds, or a claimed one, or why not. -/
def numberFor (s : PaymentsSettings) (orderId userId : String) :
    Engine (Except VoidReason Nat) := do
  let held : Option Nat ← numbers (.fetchByOrder orderId)
  match held with
  | some number => return .ok number
  | none => do
    let membership : Option CipherMembership ← memberships (.fetch userId)
    if membership.any fun m => m.isActive && !decide (orderId ∈ m.orders) then return .error .stale
    else do
      match ← claimNumber s orderId with
      | some number => return .ok number
      | none => return .error .soldOut

/-- The membership a new purchase makes. -/
def freshMembership (order : PaymentOrder) (userId : String) (tier : CipherTier) (number : Nat)
    (nowMs : Int) : CipherMembership where
  userId := userId
  number := number
  tier := tier
  protGrant := tierProt tier
  orders := [order.id]
  disputedOrders := if isDisputed order then [order.id] else []
  grantedAt := nowMs
  revokedAt := none
  revokeReason := none
  protPostedAt := none
  version := 0

/-- The tries of a new membership: insert it, or put it over a revoked row. -/
def applyNewTries (fresh : CipherMembership) (orderId : String) : Nat → Engine Applied
  | 0 => failWith .internalError
  | tries + 1 => do
    let inserted : Bool ← memberships (.insert fresh)
    if inserted then return .done
    else do
      match ← memberships (.fetch fresh.userId) with
      | none => applyNewTries fresh orderId tries
      | some m =>
        if orderId ∈ m.orders then return .done
        else if m.isActive then return .void .stale
        else do
          let written : Bool ← memberships (.update fresh m.version)
          if written then return .done else applyNewTries fresh orderId tries

/-- The membership with an upgrade applied. -/
def upgraded (m : CipherMembership) (order : PaymentOrder) (toTier : CipherTier) :
    CipherMembership :=
  { m with
    tier := toTier
    protGrant := tierProt toTier
    orders := m.orders ++ [order.id]
    disputedOrders := if isDisputed order then m.disputedOrders ++ [order.id]
      else m.disputedOrders }

def applyUpgradeTries (order : PaymentOrder) (userId : String) (fromTier toTier : CipherTier) :
    Nat → Engine Applied
  | 0 => failWith .internalError
  | tries + 1 => do
    match ← memberships (.fetch userId) with
    | none => return .void .stale
    | some m =>
      if order.id ∈ m.orders then return .done
      else if !m.isActive || m.tier != fromTier then return .void .stale
      else if !m.disputedOrders.isEmpty then return .void .disputeOpen
      else do
        let written : Bool ← memberships (.update (upgraded m order toTier) m.version)
        if written then return .done else applyUpgradeTries order userId fromTier toTier tries

/-- The number and the membership write of a paid order. -/
def applyMembership (s : PaymentsSettings) (order : PaymentOrder) (userId : String)
    (nowMs : Int) : Engine Applied := do
  match order.sku with
  | .cipherNew tier => do
    match ← numberFor s order.id userId with
    | .error reason => return .void reason
    | .ok number =>
      applyNewTries (freshMembership order userId tier number nowMs) order.id membershipRetries
  | .cipherUpgrade fromTier toTier =>
    applyUpgradeTries order userId fromTier toTier membershipRetries
  | .protPack _ _ _ => failWith .internalError
  | .protExact _ => failWith .internalError

/-! ## Fulfilment -/

def cardCountryWaitMs : Int := 30 * 60 * 1000

/-- Whether a failed read of a payment's charge is one retrying cannot fix. -/
def cardCountryUnreadable : StripeError → Bool
  | .api status _ kind _ =>
    (status == 400 || status == 403 || status == 404) &&
      (kind == some "permission_error" || kind == some "invalid_request_error")
  | .decode _ => true
  | .transport _ => false

/-- The blocked country a payment comes from, if any: the billing country, then the
card's. -/
def blockedCountry (blocked : List String) (order : PaymentOrder) (session : CheckoutSession)
    (paymentIntent : String) (nowMs : Int) : Engine (Option String) := do
  match session.billingCountry.filter (countryBlocked blocked) with
  | some country => return some country
  | none =>
    if blocked.isEmpty then return none
    else do
      let answer ← stripe (.getPaymentCharge paymentIntent)
      match answer with
      | .ok charge => return charge.cardCountry.filter (countryBlocked blocked)
      | .error err =>
        if cardCountryUnreadable err && session.billingCountry.isSome &&
            order.paidAt.any fun at_ => decide (cardCountryWaitMs < clampI64 (nowMs - at_)) then
          return none
        else failWith .paymentProviderError

/-- The countries the order's family is not sold to. -/
def blockedCountries (s : PaymentsSettings) (family : ProductFamily) : Engine (List String) := do
  match family with
  | .cipher => return s.blockedCountries
  | .prot => do
    let ps ← loadProtSettings
    return ps.blockedCountries

/-- Whether the release of the buyer's old number stands in the way of a new purchase. -/
def releaseBlocks (order : PaymentOrder) (membership : Option CipherMembership) : Engine Bool := do
  match membership with
  | some m => if order.sku.isCipherNew then numberReleasePending m else return false
  | none => return false

/-- The apply step of a family. -/
def applyOrder (s : PaymentsSettings) (order : PaymentOrder) (userId : String) (nowMs : Int) :
    Engine Applied := do
  match order.sku.family with
  | .cipher => applyMembership s order userId nowMs
  | .prot => do
    applyPurchase order userId nowMs
    return .done

/-- Check that a paid order still applies, and apply it; an outcome when it was voided
instead. -/
def applyChecked (s : PaymentsSettings) (session : CheckoutSession) (paymentIntent userId : String)
    (membership : Option CipherMembership) (nowMs : Int) : Work (Option FulfilOutcome) := do
  let order ← Work.order
  let blocked ← blockedCountries s order.sku.family
  match ← blockedCountry blocked order session paymentIntent nowMs with
  | some country => do
    let outcome ← voidForRegion country nowMs
    return some outcome
  | none => do
    if ← releaseBlocks order membership then do
      let outcome ← voidPaid .releasePending nowMs
      return some outcome
    else
      match preconditionFailure s order membership with
      | some reason => do
        let outcome ← voidPaid reason nowMs
        return some outcome
      | none =>
        if order.reversalPending.isSome then do
          let outcome ← voidPaid .reversed nowMs
          return some outcome
        else do
          match ← applyOrder s order userId nowMs with
          | .done => return none
          | .void reason => do
            let outcome ← voidPaid reason nowMs
            return some outcome

/-- A lost lease publishes nothing: the stored order decides the listing. -/
def listIfStoredDisputed (orderId userId : String) : Engine Unit := do
  match ← (orders (.fetch orderId)).attempt with
  | .ok (some stored) =>
    if isDisputed stored then do
      let _ ← (setDisputeListing userId orderId true).attempt
      return ()
    else return ()
  | _ => return ()

/-- Publish the badge, while the lease still holds and nobody wrote the order since. -/
def publishBadge (userId : String) : Work Unit := do
  match ← Work.attempt (Work.write id) with
  | .ok _ => syncUserBadge userId
  | .error e => do
    let order ← Work.order
    listIfStoredDisputed order.id userId
    Work.fail e

/-- Apply a reversal that was recorded before. -/
def reversePending (nowMs : Int) : Work Unit := do
  let order ← Work.order
  match order.reversalPending with
  | none => return ()
  | some pending => do
    let _ ← reverseLocked (pendingKind pending) none none nowMs
    return ()

/-- Re-assert the listing and the badge of a fulfilled order. -/
def reassertBadge (order : PaymentOrder) (userId : String) : Engine Unit := do
  if isDisputed order then do
    let _ ← setDisputeListing userId order.id true
    syncUserBadge userId
  else syncUserBadge userId

/-- A fulfilled order seen again. -/
def finishFulfilled (nowMs : Int) : Work Unit := do
  let order ← Work.order
  match order.userId with
  | none => reversePending nowMs
  | some userId => do
    reassertBadge order userId
    reversePending nowMs

def recordFulfilled (nowMs : Int) (o : PaymentOrder) : PaymentOrder :=
  { o with state := .fulfilled, fulfilledAt := some nowMs }

/-- The badge of a Cipher order; Prot has none. -/
def publishFamily (family : ProductFamily) (userId : String) : Work Unit :=
  match family with
  | .cipher => publishBadge userId
  | .prot => pure ()

def syncFamily (family : ProductFamily) (userId : String) (nowMs : Int) : Engine Unit :=
  match family with
  | .cipher => syncAfterCipherFulfil userId nowMs
  | .prot => pure ()

/-- The last steps: the badge, the state, a reversal that came first, the founding Prot. -/
def finishFulfil (userId : String) (nowMs : Int) : Work FulfilOutcome := do
  let order ← Work.order
  publishFamily order.sku.family userId
  Work.write (recordFulfilled nowMs)
  reversePending nowMs
  syncFamily order.sku.family userId nowMs
  return .fulfilled

/-- Whether the order is applied already, with the membership that was read. -/
def alreadyApplied (order : PaymentOrder) (userId : String) :
    Engine (Bool × Option CipherMembership) := do
  match order.sku.family with
  | .cipher => do
    let membership : Option CipherMembership ← memberships (.fetch userId)
    return (membership.any fun m => decide (order.id ∈ m.orders), membership)
  | .prot => do
    let applied ← purchaseApplied order.id
    return (applied, none)

/-- An order applied by a worker that crashed: its disputes are the truth. -/
def relistDisputes (order : PaymentOrder) (userId : String) : Engine Unit :=
  match order.sku.family with
  | .cipher => do
    let _ ← setDisputeListing userId order.id (isDisputed order)
    return ()
  | .prot => pure ()

/-- Fulfil a paid order of a live buyer. -/
def fulfilLive (s : PaymentsSettings) (session : CheckoutSession) (paymentIntent userId : String)
    (nowMs : Int) : Work FulfilOutcome := do
  let order ← Work.order
  let (applied, membership) ← alreadyApplied order userId
  if applied then do
    relistDisputes order userId
    finishFulfil userId nowMs
  else do
    match ← applyChecked s session paymentIntent userId membership nowMs with
    | some outcome => return outcome
    | none => finishFulfil userId nowMs

/-- A paid order: voided if its session was wrong or a void is recorded, else fulfilled
for a buyer that is still there. -/
def fulfilPaid (s : PaymentsSettings) (session : CheckoutSession) (paymentIntent : String)
    (wrongTerms : Bool) (nowMs : Int) : Work FulfilOutcome := do
  let order ← Work.order
  if wrongTerms then voidPaid .amountMismatch nowMs
  else
    match order.voidReason with
    | some reason => voidPaid reason nowMs
    | none =>
      match order.userId with
      | none => voidForDeletedAccount session.clientReferenceId nowMs
      | some userId => do
        if ← buyerIsLive userId then fulfilLive s session paymentIntent userId nowMs
        else voidForDeletedAccount (some userId) nowMs

def recordPayment (session : CheckoutSession) (paymentIntent : String) (nowMs : Int)
    (o : PaymentOrder) : PaymentOrder :=
  { o with
    paymentIntentId := some paymentIntent
    paidAt := some nowMs
    checkoutSessionId := some (o.checkoutSessionId.getD session.id) }

def recordPaid (session : CheckoutSession) (paymentIntent : String) (nowMs : Int)
    (o : PaymentOrder) : PaymentOrder :=
  { recordPayment session paymentIntent nowMs o with state := .paid }

/-- A completed session of a voided order that was never paid. -/
def voidLateSession (s : PaymentsSettings) (session : CheckoutSession) (paymentIntent : String)
    (reason : VoidReason) (nowMs : Int) : Work FulfilOutcome := do
  let order ← Work.order
  if isDisputed order then do
    Work.write (recordPaid session paymentIntent nowMs)
    let _ ← Work.attempt (recheckOpenDisputes s nowMs)
    voidPaid reason nowMs
  else do
    if ← refundForVoid paymentIntent order.id then do
      Work.write (recordPayment session paymentIntent nowMs)
      return .voided reason
    else Work.fail .paymentProviderError

/-- A completed session for a voided order. -/
def voidLatePayment (s : PaymentsSettings) (session : CheckoutSession) (nowMs : Int) :
    Work FulfilOutcome := do
  let order ← Work.order
  let reason := order.voidReason.getD .stale
  if order.paymentIntentId.isSome then return .voided reason
  else if sessionMismatch order session s = some .notOurs then return .ignored
  else if session.paymentStatus ≠ some "paid" then return .voided reason
  else
    match session.paymentIntent with
    | none => Work.fail .paymentProviderError
    | some paymentIntent => voidLateSession s session paymentIntent reason nowMs

/-- A session to an order that is not settled yet. -/
def fulfilOpen (s : PaymentsSettings) (session : CheckoutSession) (wrongTerms : Bool)
    (nowMs : Int) : Work FulfilOutcome := do
  let order ← Work.order
  if session.paymentStatus ≠ some "paid" then
    if wrongTerms then return .ignored else return .notPaid
  else
    match session.paymentIntent with
    | none => Work.fail .paymentProviderError
    | some paymentIntent => do
      Work.onlyIf (order.state != .paid) (Work.write (recordPaid session paymentIntent nowMs))
      fulfilPaid s session paymentIntent wrongTerms nowMs

/-- Fulfil an order whose lease the caller holds. -/
def fulfilLocked (s : PaymentsSettings) (session : CheckoutSession) (nowMs : Int) :
    Work FulfilOutcome := do
  let order ← Work.order
  match order.state with
  | .fulfilled => do
    finishFulfilled nowMs
    return .alreadyFulfilled
  | .refunded => return .alreadyFulfilled
  | .voided => voidLatePayment s session nowMs
  | _ =>
    match sessionMismatch order session s with
    | none => fulfilOpen s session false nowMs
    | some .notOurs => return .ignored
    | some .terms => fulfilOpen s session true nowMs

/-- Fulfil an order with a completed session as Stripe reports it. -/
def fulfilOrder (s : PaymentsSettings) (orderId : String) (session : CheckoutSession)
    (nowMs : Int) : Engine FulfilOutcome :=
  leaseOr orderId nowMs .leaseHeld (fulfilLocked s session nowMs)

/-- A resume reads the disputes of a paid order again; a failed read leaves them. -/
def recheckIfPaid (s : PaymentsSettings) (nowMs : Int) : Work Unit := do
  let order ← Work.order
  if order.state = .paid ∧ order.openDisputes ≠ [] then do
    let _ ← Work.attempt (recheckOpenDisputes s nowMs)
    return ()
  else return ()

def resumeLocked (s : PaymentsSettings) (session : CheckoutSession) (nowMs : Int) :
    Work FulfilOutcome := do
  recheckIfPaid s nowMs
  fulfilLocked s session nowMs

/-- Resume a paid order: fetch its session again, then fulfil it. -/
def resumeOrder (s : PaymentsSettings) (orderId : String) (nowMs : Int) : Engine FulfilOutcome := do
  match ← orders (.fetch orderId) with
  | none => failWith .notFound
  | some order =>
    match order.checkoutSessionId with
    | none => failWith .internalError
    | some sessionId => do
      let session : CheckoutSession ← stripeOrProviderError (.getCheckoutSession sessionId)
      leaseOr orderId nowMs .leaseHeld (resumeLocked s session nowMs)

/-! ## Expiry and account deletion -/

def recordExpired (o : PaymentOrder) : PaymentOrder := { o with state := .expired }

/-- Expire an order that was never paid; `false` when its lease is held. -/
def expireOrder (orderId : String) (nowMs : Int) : Engine Bool :=
  leaseOr orderId nowMs false do
    let order ← Work.order
    Work.onlyIf (order.state == .creating || order.state == .pending || order.state == .sessionFailed)
      (Work.write recordExpired)
    return true

/-- An order voided before it was paid. -/
def recordDeleted (nowMs : Int) (o : PaymentOrder) : PaymentOrder :=
  { o with
    state := .voided
    voidReason := some .accountDeleted
    reversedAt := some nowMs }

/-- Void an open order of an account being deleted. -/
def voidForDeletion (nowMs : Int) : Work Unit := do
  let order ← Work.order
  match order.state with
  | .paid => do
    let _ ← voidForDeletedAccount order.userId nowMs
    return ()
  | .creating => Work.write (recordDeleted nowMs)
  | .pending => Work.write (recordDeleted nowMs)
  | .sessionFailed => Work.write (recordDeleted nowMs)
  | _ => return ()

/-- Void one listed order; every failure is left to the reconcile sweep. -/
def voidListed (orderId : String) (nowMs : Int) : Engine Unit := do
  let _ ← (leaseOr orderId nowMs () (voidForDeletion nowMs)).attempt
  return ()

def voidAll (nowMs : Int) : List PaymentOrder → Engine Unit
  | [] => return ()
  | order :: rest => do
    voidListed order.id nowMs
    voidAll nowMs rest

/-- Unlink every order from the user, then delete the membership. -/
def unlinkAccountPayments (userId : String) : Engine Unit := do
  orders (.unlink userId)
  memberships (.delete userId)

/-- The orders an account deletion voids; none when they cannot be listed. -/
def openOrders (userId : String) : Engine (List PaymentOrder) := do
  let listed ← (orders (.fetchByUser userId [.creating, .pending, .sessionFailed, .paid])).attempt
  match listed with
  | .ok open_ => return open_
  | .error _ => return []

/-- Account deletion: void what is open, then unlink and delete. -/
def onAccountDeleted (userId : String) (nowMs : Int) : Engine Unit := do
  let open_ ← openOrders userId
  voidAll nowMs open_
  unlinkAccountPayments userId

/-! ## Deliveries -/

/-- What is delivered to the engine: webhook events, the reconcile sweep's steps, and
account deletions. -/
inductive Delivery where
  | fulfil (orderId : String) (session : CheckoutSession) (nowMs : Int)
  | resume (orderId : String) (nowMs : Int)
  | reverse (orderId : String) (kind : ReverseKind) (refund : Option RefundFacts) (nowMs : Int)
  | dispute (orderId disputeId : String) (nowMs : Int)
  | recheck (orderId : String) (nowMs : Int)
  | finishRelease (orderId : String) (nowMs : Int)
  | markSettling (orderId : String) (nowMs : Int)
  | clearSettling (orderId : String) (nowMs : Int)
  | expire (orderId : String) (nowMs : Int)
  | accountDeleted (userId : String) (nowMs : Int)

/-- The program of a delivery; only its effect is of interest. -/
def deliver (s : PaymentsSettings) : Delivery → Engine Unit
  | .fulfil orderId session nowMs => do
    let _ ← fulfilOrder s orderId session nowMs
    return ()
  | .resume orderId nowMs => do
    let _ ← resumeOrder s orderId nowMs
    return ()
  | .reverse orderId kind refund nowMs => do
    let _ ← reverseOrder orderId kind refund nowMs
    return ()
  | .dispute orderId disputeId nowMs => do
    let _ ← reverseDispute s orderId disputeId nowMs
    return ()
  | .recheck orderId nowMs => do
    let _ ← recheckDisputes s orderId nowMs
    return ()
  | .finishRelease orderId nowMs => do
    let _ ← finishNumberRelease orderId nowMs
    return ()
  | .markSettling orderId nowMs => do
    let _ ← markRefundSettling orderId nowMs
    return ()
  | .clearSettling orderId nowMs => do
    let _ ← clearRefundSettling orderId nowMs
    return ()
  | .expire orderId nowMs => do
    let _ ← expireOrder orderId nowMs
    return ()
  | .accountDeleted userId nowMs => onAccountDeleted userId nowMs

end SlogaBackend.Payments
