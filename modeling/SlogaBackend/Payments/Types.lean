import SlogaBackend.Base
import SlogaBackend.Lib.Table

/-!
# Orders, memberships and numbers

The rows of the three collections a purchase touches (`models/payment_orders`,
`models/cipher_memberships`, `models/cipher_numbers`) and what an order buys.
The collections have no common transaction: an order names its buyer, a
membership names the orders applied to it, and a number names the order that
claimed it. Timestamps are epoch milliseconds.
-/

namespace SlogaBackend.Payments

/-! ## What an order buys -/

/-- Cipher membership tier, named after its price in US dollars. -/
inductive CipherTier where
  | t99
  | t149
  | t299
  deriving DecidableEq

/-- What a payment order buys. -/
inductive Sku where
  | cipherNew (tier : CipherTier)
  | cipherUpgrade (fromTier toTier : CipherTier)
  | protPack (pack : String) (prot cents : Int)
  | protExact (prot : Int)
  deriving DecidableEq

inductive ProductFamily where
  | cipher
  | prot
  deriving DecidableEq

def Sku.family : Sku → ProductFamily
  | .cipherNew _ => .cipher
  | .cipherUpgrade _ _ => .cipher
  | .protPack _ _ _ => .prot
  | .protExact _ => .prot

/-! ## Orders -/

/-- Where a payment order stands. -/
inductive OrderState where
  | creating
  | pending
  | sessionFailed
  | paid
  | fulfilled
  | expired
  | refunded
  | voided
  deriving DecidableEq

/-- Why a paid order was voided instead of fulfilled. -/
inductive VoidReason where
  | soldOut
  | stale
  | salesClosed
  | disputeOpen
  | accountDeleted
  | amountMismatch
  | reversed
  | releasePending
  | regionUnavailable
  deriving DecidableEq

/-- A reversal that arrived before fulfilment finished. -/
inductive ReversalPending where
  | refund
  | disputeLost
  deriving DecidableEq

/-- A purchase, from checkout to fulfilment or reversal. -/
structure PaymentOrder where
  id : String
  /-- Unset when the buyer deletes their account. -/
  userId : Option String
  sku : Sku
  amountCents : Int
  currency : String
  checkoutSessionId : Option String
  checkoutUrl : Option String
  sessionExpiresAt : Option Int
  paymentIntentId : Option String
  state : OrderState
  voidReason : Option VoidReason
  regionBlockedCountry : Option String
  reversalPending : Option ReversalPending
  refundSettlingSince : Option Int
  openDisputes : List String
  leaseUntil : Option Int
  version : Nat
  createdAt : Int
  paidAt : Option Int
  fulfilledAt : Option Int
  reversedAt : Option Int
  deriving DecidableEq

/-! ## Memberships -/

inductive CipherRevokeReason where
  | refund
  | disputeLost
  | admin
  deriving DecidableEq

/-- A user's Cipher membership. A revoked row is kept, and its number stays
retired. -/
structure CipherMembership where
  userId : String
  number : Nat
  tier : CipherTier
  protGrant : Nat
  /-- Payment orders applied to this membership, the purchase first. -/
  orders : List String
  disputedOrders : List String
  grantedAt : Int
  revokedAt : Option Int
  revokeReason : Option CipherRevokeReason
  protPostedAt : Option Int
  version : Nat
  deriving DecidableEq

/-- Whether the membership has not been revoked. -/
def CipherMembership.isActive (m : CipherMembership) : Bool := m.revokedAt.isNone

/-! ## Numbers -/

/-- One sellable Cipher number; claimed while `orderId` is set. -/
structure CipherNumber where
  number : Nat
  orderId : Option String
  releasePendingAt : Option Int

end SlogaBackend.Payments
