import SlogaBackend.Payments.Memberships

/-!
# Catalog, settings and what Stripe reports

Prices and grants (`catalog.rs`), the settings the engine reads (`settings.rs`), and
the records that come back from Stripe (`stripe/client.rs`). The client names a tier,
a pack or an amount; every price is computed here.

Stripe itself is outside. Its answers are values of the types below, and nothing is
assumed of them.
-/

namespace SlogaBackend.Payments

/-! ## Prices and grants -/

def tierCents : CipherTier → Int
  | .t99 => 9900
  | .t149 => 14900
  | .t299 => 29900

def tierProt : CipherTier → Nat
  | .t99 => 16500
  | .t149 => 33000
  | .t299 => 75000

def tierRank : CipherTier → Nat
  | .t99 => 1
  | .t149 => 2
  | .t299 => 3

def tierLabel : CipherTier → String
  | .t99 => "$99"
  | .t149 => "$149"
  | .t299 => "$299"

/-- A Prot price, refused unless it charges something. -/
def protCents (cents : Int) : Result Int := if cents ≤ 0 then .error .protPackInvalid else .ok cents

/-- Amount charged for a SKU, in US cents. -/
def skuCents : Sku → Result Int
  | .cipherNew tier =>
    if tierCents tier ≤ 0 then .error .cipherTierInvalid else .ok (tierCents tier)
  | .cipherUpgrade fromTier toTier =>
    if tierCents toTier - tierCents fromTier ≤ 0 then .error .cipherTierInvalid
    else .ok (tierCents toTier - tierCents fromTier)
  | .protPack _ _ cents => protCents cents
  | .protExact prot => protCents prot

/-- Digits in groups of three, from the right. -/
def groupThousands : List Char → List Char
  | [] => []
  | c :: rest =>
    if rest ≠ [] ∧ rest.length % 3 = 0 then c :: ',' :: groupThousands rest
    else c :: groupThousands rest

/-- Thousands-grouped Prot count. -/
def protLabel (prot : Int) : String :=
  (if prot < 0 then "-" else "") ++ String.ofList (groupThousands (Nat.repr prot.natAbs).toList)

def skuProductName : Sku → String
  | .cipherNew tier => "Cipher founding supporter (" ++ tierLabel tier ++ ")"
  | .cipherUpgrade fromTier toTier =>
    "Cipher upgrade (" ++ tierLabel fromTier ++ " to " ++ tierLabel toTier ++ ")"
  | .protPack _ prot _ => protLabel prot ++ " Prot"
  | .protExact prot => protLabel prot ++ " Prot"

/-- Prot an order credits; none for Cipher SKUs. -/
def skuProt : Sku → Option Int
  | .cipherNew _ => none
  | .cipherUpgrade _ _ => none
  | .protPack _ prot _ => some prot
  | .protExact prot => some prot

/-- Checkbox text at the checkout. -/
def skuConsentMessage (sku : Sku) : String :=
  match sku.family with
  | .cipher => "I agree to the [Terms of Service](https://sloga.gg/legal/terms.html). " ++
      "My Cipher badge is supplied as soon as my payment goes through, and I can ask for a " ++
      "full refund within 14 days."
  | .prot => "I agree to the [Terms of Service](https://sloga.gg/legal/terms.html). " ++
      "My Prot is supplied as soon as my payment goes through, and it is non-refundable " ++
      "except where the law requires."

def skuTaxCode (sku : Sku) : String :=
  match sku.family with
  | .cipher => "txcd_10000000"
  | .prot => "txcd_10000000"

/-- What a user on `current` is sold when they ask for `wanted`. -/
def quote (current : Option CipherTier) (wanted : CipherTier) : Result Sku :=
  match current with
  | none => .ok (.cipherNew wanted)
  | some fromTier =>
    if tierRank fromTier < tierRank wanted then .ok (.cipherUpgrade fromTier wanted)
    else .error .cipherTierInvalid

/-! ## Settings -/

def eqIgnoreAsciiCase (a b : String) : Bool :=
  a.toList.map Char.toLower == b.toList.map Char.toLower

/-- Whether a country is on a list of countries a family is not sold to. -/
def countryBlocked (list : List String) (country : String) : Bool :=
  list.any fun blocked => eqIgnoreAsciiCase blocked country

structure PaymentsSettings where
  enabled : Bool
  salesOpen : Bool
  cap : Nat
  closeAtMs : Option Int
  expectLivemode : Bool
  automaticTax : Bool
  blockedCountries : List String
  successUrlWeb : String
  cancelUrlWeb : String
  successUrlShell : String
  cancelUrlShell : String

/-- Whether new Cipher checkouts may start at `atMs`. -/
def PaymentsSettings.salesOpenAt (s : PaymentsSettings) (atMs : Int) : Bool :=
  s.enabled && s.salesOpen && s.closeAtMs.all fun close => decide (atMs < close)

def PaymentsSettings.regionBlocked (s : PaymentsSettings) (country : String) : Bool :=
  countryBlocked s.blockedCountries country

structure ProtPackConfig where
  id : String
  cents : Int
  prot : Int

structure ProtSalesSettings where
  enabled : Bool
  cipherGrantsEnabled : Bool
  walletCap : Int
  salesOpen : Bool
  packs : List ProtPackConfig
  exactMinCents : Int
  exactMaxCents : Int
  blockedCountries : List String
  successUrl : String
  cancelUrl : String
  shellReturnUrl : String

def ProtSalesSettings.grantsActive (ps : ProtSalesSettings) : Bool :=
  ps.enabled && ps.cipherGrantsEnabled

def ProtSalesSettings.regionBlocked (ps : ProtSalesSettings) (country : String) : Bool :=
  countryBlocked ps.blockedCountries country

/-- What the buyer asked for at a Prot checkout. -/
inductive ProtChoice where
  | pack (id : String)
  | exactCents (cents : Int)

def quoteProt (ps : ProtSalesSettings) : ProtChoice → Result Sku
  | .pack id =>
    match ps.packs.find? fun pack => pack.id == id with
    | some pack => .ok (.protPack pack.id pack.prot pack.cents)
    | none => .error .protPackInvalid
  | .exactCents cents =>
    if ps.exactMinCents ≤ cents ∧ cents ≤ ps.exactMaxCents then .ok (.protExact cents)
    else .error .protPackInvalid

/-- Where the buyer is sent after checkout. -/
inductive CipherReturnTo where
  | web
  | shell

/-! ## What Stripe reports -/

/-- Why a Stripe call failed. -/
inductive StripeError where
  | transport (message : String)
  | api (status : Nat) (code kind : Option String) (message : String)
  | decode (message : String)

structure CheckoutSessionParams where
  orderId : String
  userId : String
  amountCents : Int
  currency : String
  productName : String
  successUrl : String
  cancelUrl : String
  expiresAtSecs : Int
  automaticTax : Bool
  consentMessage : String
  taxCode : String
  deriving DecidableEq

structure CheckoutSession where
  id : String
  url : Option String
  paymentStatus : Option String
  paymentIntent : Option String
  amountTotal : Option Int
  currency : Option String
  livemode : Bool
  clientReferenceId : Option String
  metadataOrderId : Option String
  /-- Seconds since the Unix epoch. -/
  expiresAt : Option Int
  billingCountry : Option String

structure PaymentIntent where
  id : String
  livemode : Bool
  metadataOrderId : Option String

structure PaymentCharge where
  cardCountry : Option String

structure Refund where
  id : String
  status : Option String
  amount : Option Int
  created : Option Int

structure Dispute where
  id : String
  status : Option String
  paymentIntent : Option String

/-- The idempotency key of a refund: our own refund of an order, or of an upgrade whose
membership a release deletes. -/
inductive RefundKey where
  | voidOrder (orderId : String)
  | releaseUpgrade (orderId : String)
  deriving DecidableEq

def RefundKey.text : RefundKey → String
  | .voidOrder orderId => "void-" ++ orderId
  | .releaseUpgrade orderId => "release-upgrade-" ++ orderId

def RefundKey.orderId : RefundKey → String
  | .voidOrder orderId => orderId
  | .releaseUpgrade orderId => orderId

/-! ## Reversals -/

/-- A reversal reported by the provider. -/
inductive ReverseKind where
  | refund
  | disputeOpened
  | disputeWon
  | disputeLost
  deriving DecidableEq

/-- The reversal a dispute's current status calls for. -/
def disputeKind : Option String → ReverseKind
  | some "lost" => .disputeLost
  | some "won" => .disputeWon
  | some "warning_closed" => .disputeWon
  | some "prevented" => .disputeWon
  | _ => .disputeOpened

/-- Where a payment's refunds stand. -/
inductive RefundStatus where
  | succeeded
  | pending
  | failed
  deriving DecidableEq

/-- What the provider said about a refund. -/
structure RefundFacts where
  refundedAtMs : Int
  full : Bool
  status : RefundStatus

/-- The sum of the refunded amounts; none when one is unknown. -/
def refundedSum : List Refund → Int → Option Int
  | [], sum => some sum
  | r :: rest, sum =>
    match r.amount with
    | some amount => refundedSum rest (clampI64 (sum + amount))
    | none => none

/-- What the refunds of a payment add up to. -/
def refundFacts (refunds : List Refund) (amountCents eventCreated nowMs : Int) :
    Option RefundFacts :=
  if refunds.isEmpty then none
  else
    let succeeded := refunds.filter fun r => r.status == some "succeeded"
    let unsettled := refunds.any fun r =>
      !(r.status == some "succeeded" || r.status == some "failed" || r.status == some "canceled")
    let status := if unsettled then RefundStatus.pending
      else if succeeded.isEmpty then .failed else .succeeded
    let full := decide (0 < amountCents) &&
      (refundedSum succeeded 0).any fun sum => decide (amountCents ≤ sum)
    let madeAt := ((succeeded.map fun r => r.created.getD eventCreated).max?).getD eventCreated
    some ⟨min (clampI64 (madeAt * 1000)) nowMs, full, status⟩

end SlogaBackend.Payments
