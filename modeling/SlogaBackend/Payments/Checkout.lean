import SlogaBackend.Payments.Fulfilment

/-!
# The payments engine: checkout

`create_cipher_checkout` and `create_prot_checkout`. A checkout passes its gates, looks for
an order of the same family that is still being paid, stores a new order as creating, and
starts its session at Stripe under the order's lease; the order is then pending, or its
session failed.

The look and the insert are two calls, with the gates of a later checkout free to run
between them. Identifiers of orders are drawn outside: a request carries the one its order
gets.
-/

namespace SlogaBackend.Payments

/-- How long after its creation an order that is still creating blocks another checkout. -/
def creatingBlocksMs : Int := 2 * 60 * 1000

/-- Lifetime of a session, in seconds. -/
def sessionTtlSecs : Int := 35 * 60

/-- How long a void for the buyer's region keeps the buyer out of checkout. -/
def regionRefusalMs : Int := 30 * 24 * 3600 * 1000

/-! ## Gates -/

/-- Whether a region void was made recently, for a country that is blocked now. -/
def recentRegionVoid (blocked : String → Bool) (order : PaymentOrder) (nowMs : Int) : Bool :=
  order.voidReason == some .regionUnavailable && order.regionBlockedCountry.any blocked &&
    (order.reversedAt.or order.paidAt).any fun at_ =>
      decide (clampI64 (nowMs - at_) < regionRefusalMs)

def regionRefusalHolds (s : PaymentsSettings) (order : PaymentOrder) (nowMs : Int) : Bool :=
  recentRegionVoid s.regionBlocked order nowMs

def protRegionRefusalHolds (ps : ProtSalesSettings) (order : PaymentOrder) (nowMs : Int) : Bool :=
  (order.sku.family == .prot && (order.state == .voided || order.state == .paid)) &&
    recentRegionVoid ps.regionBlocked order nowMs

/-- Whether a Cipher region void still keeps the buyer out. -/
def regionRefused (s : PaymentsSettings) (userId : String) (nowMs : Int) : Engine Bool := do
  if s.blockedCountries.isEmpty then return false
  else do
    let found : List PaymentOrder ← orders (.fetchByUser userId [.voided, .paid])
    return (found.filter fun o => o.sku.family == .cipher).any fun o => regionRefusalHolds s o nowMs

/-- Whether the release of the number of this membership is running. -/
def releaseRunning : Option CipherMembership → Engine Bool
  | some m => numberReleasePending m
  | none => return false

/-- Why a quoted Cipher SKU is refused before the buyer pays. -/
def quoteRefused (s : PaymentsSettings) (membership : Option CipherMembership) :
    Sku → Engine (Option Error)
  | .cipherUpgrade _ _ =>
    return if membership.any fun m => !m.disputedOrders.isEmpty then some .cipherTierInvalid
      else none
  | .cipherNew _ => do
    let claimed : Nat ← numbers .countClaimed
    return if s.cap ≤ claimed then some .cipherSoldOut else none
  | .protPack _ _ _ => return some .internalError
  | .protExact _ => return some .internalError

/-! ## Live orders -/

/-- Whether an order is still being paid: its session is open, or is being made. -/
def isLive (nowMs : Int) (order : PaymentOrder) : Bool :=
  match order.state with
  | .pending => order.sessionExpiresAt.any fun at_ => decide (nowMs < at_)
  | .creating => decide (clampI64 (nowMs - order.createdAt) < creatingBlocksMs)
  | _ => false

/-- What a live order answers to a checkout of `sku`: its own page if it is for the same,
else that a payment is pending. -/
def liveAnswer (sku : Sku) (order : PaymentOrder) : Result String :=
  match order.state, order.checkoutUrl with
  | .pending, some url => if order.sku = sku then .ok url else .error .paymentPending
  | _, _ => .error .paymentPending

/-- The answer of the newest live order of the family, if there is one. -/
def liveOrder (family : ProductFamily) (sku : Sku) (nowMs : Int) (found : List PaymentOrder) :
    Option (Result String) :=
  ((found.reverse.filter fun o => o.sku.family == family).find? (isLive nowMs)).map (liveAnswer sku)

/-! ## The new order -/

def newOrder (orderId userId : String) (sku : Sku) (cents nowMs : Int) : PaymentOrder where
  id := orderId
  userId := some userId
  sku := sku
  amountCents := cents
  currency := "usd"
  checkoutSessionId := none
  checkoutUrl := none
  sessionExpiresAt := none
  paymentIntentId := none
  state := .creating
  voidReason := none
  regionBlockedCountry := none
  reversalPending := none
  refundSettlingSince := none
  openDisputes := []
  leaseUntil := none
  version := 0
  createdAt := nowMs
  paidAt := none
  fulfilledAt := none
  reversedAt := none

/-- The session asked for, from the stored order. -/
def sessionParams (s : PaymentsSettings) (order : PaymentOrder) (userId successUrl cancelUrl : String) :
    CheckoutSessionParams where
  orderId := order.id
  userId := userId
  amountCents := order.amountCents
  currency := order.currency
  productName := skuProductName order.sku
  successUrl := successUrl
  cancelUrl := cancelUrl
  expiresAtSecs := order.createdAt / 1000 + sessionTtlSecs
  automaticTax := s.automaticTax
  consentMessage := skuConsentMessage order.sku
  taxCode := skuTaxCode order.sku

/-- The page of a session that is in our mode and in the order's amount. -/
def sessionUrl (s : PaymentsSettings) (params : CheckoutSessionParams) (session : CheckoutSession) :
    Option String :=
  match session.url with
  | some url =>
    if session.livemode ≠ s.expectLivemode then none
    else if session.amountTotal.any fun amount => amount != params.amountCents then none
    else some url
  | none => none

def recordPending (params : CheckoutSessionParams) (session : CheckoutSession) (url : String)
    (o : PaymentOrder) : PaymentOrder :=
  { o with
    state := .pending
    checkoutSessionId := some session.id
    checkoutUrl := some url
    sessionExpiresAt := some (clampI64 (session.expiresAt.getD params.expiresAtSecs * 1000)) }

/-- The session could not be made; an order that cannot be marked either is left to the
sweep. -/
def sessionFailed : Work String := do
  let _ ← Work.attempt (Work.write fun o => { o with state := .sessionFailed })
  Work.fail .paymentProviderError

/-- Make the session of a leased order. -/
def startSessionWithUrls (s : PaymentsSettings) (successUrl cancelUrl : String) : Work String := do
  let order ← Work.order
  match order.userId with
  | none => Work.fail .internalError
  | some userId => do
    let params := sessionParams s order userId successUrl cancelUrl
    let answer : Except StripeError CheckoutSession ← stripe (.createCheckoutSession params)
    match answer with
    | .error _ => sessionFailed
    | .ok session =>
      match sessionUrl s params session with
      | none => sessionFailed
      | some url => do
        Work.write (recordPending params session url)
        return url

/-- Store the new order and make its session. -/
def openOrder (s : PaymentsSettings) (order : PaymentOrder) (urls : String × String)
    (nowMs : Int) : Engine String := do
  orders (.insert order)
  match ← acquire order.id nowMs with
  | none => failWith .internalError
  | some leased => do
    let (result, _) ← underLease leased (startSessionWithUrls s urls.1 urls.2)
    check result

/-! ## Checkouts -/

/-- Where the buyer returns to after a payment, and after giving up. -/
def PaymentsSettings.returnUrls (s : PaymentsSettings) : CipherReturnTo → String × String
  | .web => (s.successUrlWeb, s.cancelUrlWeb)
  | .shell => (s.successUrlShell, s.cancelUrlShell)

def ProtSalesSettings.returnUrls (ps : ProtSalesSettings) : CipherReturnTo → String × String
  | .web => (ps.successUrl, ps.cancelUrl)
  | .shell => (ps.shellReturnUrl, ps.shellReturnUrl)

/-- The order of a quoted SKU, unless an order is still being paid. -/
def openUnlessLive (s : PaymentsSettings) (live : Option (Result String)) (orderId userId : String)
    (sku : Sku) (urls : String × String) (nowMs : Int) : Engine String :=
  match live with
  | some answer => check answer
  | none =>
    match skuCents sku with
    | .error e => failWith e
    | .ok cents => openOrder s (newOrder orderId userId sku cents nowMs) urls nowMs

/-- A Cipher checkout past its first gates. -/
def quoteCipher (s : PaymentsSettings) (userId : String) (tier : CipherTier)
    (returnTo : CipherReturnTo) (orderId : String) (row : Option CipherMembership) (nowMs : Int) :
    Engine String :=
  let membership := row.filter CipherMembership.isActive
  match quote (membership.map CipherMembership.tier) tier with
  | .error e => failWith e
  | .ok sku => do
    match ← quoteRefused s membership sku with
    | some e => failWith e
    | none => do
      let found : List PaymentOrder ← orders (.fetchByUser userId [.creating, .pending])
      openUnlessLive s (liveOrder .cipher sku nowMs found) orderId userId sku
        (s.returnUrls returnTo) nowMs

def createCipherCheckout (s : PaymentsSettings) (userId : String) (tier : CipherTier)
    (returnTo : CipherReturnTo) (orderId : String) (nowMs : Int) : Engine String := do
  if !s.enabled then failWith .paymentsDisabled
  else if !s.salesOpenAt nowMs then failWith .cipherSalesClosed
  else do
    if ← regionRefused s userId nowMs then failWith .cipherRegionUnavailable
    else do
      let row : Option CipherMembership ← memberships (.fetch userId)
      if ← releaseRunning row then failWith .paymentPending
      else quoteCipher s userId tier returnTo orderId row nowMs

/-- The Prot of paid orders that the ledger has not credited yet. -/
def uncreditedProt : List PaymentOrder → Int → Engine Int
  | [], uncredited => return uncredited
  | order :: rest, uncredited => do
    if ← purchaseApplied order.id then uncreditedProt rest uncredited
    else uncreditedProt rest (clampI64 (uncredited + (skuProt order.sku).getD 0))

/-- Whether a payment of the buyer that is not over is under dispute. -/
def disputeRuns (order : PaymentOrder) : Bool :=
  (order.state == .creating || order.state == .pending || order.state == .paid ||
    order.state == .fulfilled) && !order.openDisputes.isEmpty

/-- A Prot checkout past its gates, with the orders they read. -/
def quoteProtOrder (s : PaymentsSettings) (ps : ProtSalesSettings) (userId : String)
    (choice : ProtChoice) (returnTo : CipherReturnTo) (orderId : String)
    (found : List PaymentOrder) (nowMs : Int) : Engine String :=
  match quoteProt ps choice with
  | .error e => failWith e
  | .ok sku =>
    match skuProt sku with
    | none => failWith .internalError
    | some prot => do
      let uncredited ← uncreditedProt
        (found.filter fun o => o.state == .paid && o.sku.family == .prot) 0
      let balance ← walletBalance userId
      if ps.walletCap < clampI64 (clampI64 (balance + uncredited) + prot) then
        failWith (.protWalletCap ps.walletCap)
      else
        openUnlessLive s (liveOrder .prot sku nowMs found) orderId userId sku
          (ps.returnUrls returnTo) nowMs

def createProtCheckout (s : PaymentsSettings) (ps : ProtSalesSettings) (userId : String)
    (choice : ProtChoice) (returnTo : CipherReturnTo) (orderId : String) (nowMs : Int) :
    Engine String := do
  if !s.enabled then failWith .paymentsDisabled
  else if !ps.enabled then failWith .protDisabled
  else if !ps.salesOpen then failWith .protSalesClosed
  else do
    let user : PaymentUser ← users (.fetch userId)
    if user.bot then failWith .isBot
    else do
      let found : List PaymentOrder ←
        orders (.fetchByUser userId [.creating, .pending, .paid, .fulfilled, .voided])
      if found.any fun o => protRegionRefusalHolds ps o nowMs then failWith .protRegionUnavailable
      else if found.any disputeRuns then failWith .protNotEligible
      else quoteProtOrder s ps userId choice returnTo orderId found nowMs

inductive Checkout where
  | cipher (userId : String) (tier : CipherTier) (returnTo : CipherReturnTo) (orderId : String)
      (nowMs : Int)
  | prot (ps : ProtSalesSettings) (userId : String) (choice : ProtChoice)
      (returnTo : CipherReturnTo) (orderId : String) (nowMs : Int)

def checkOut (s : PaymentsSettings) : Checkout → Engine String
  | .cipher userId tier returnTo orderId nowMs =>
    createCipherCheckout s userId tier returnTo orderId nowMs
  | .prot ps userId choice returnTo orderId nowMs =>
    createProtCheckout s ps userId choice returnTo orderId nowMs

end SlogaBackend.Payments
