import SlogaBackend.Payments.Orders
import SlogaBackend.Payments.Catalog
import SlogaBackend.Prot.Ledger
import SlogaBackend.Lib.Processes

/-!
# The calls of the payments engine

The engine talks to six places: the orders, the memberships, the numbers, the Prot
ledger, the accounts, and Stripe. Each call is one atomic step on one of them, and no
two places share a transaction. `Store` holds them together, `Call` names the calls,
and `Store.perform` makes one.

What is not ours is a parameter of the store. `Outside` says what Stripe answers to
the `n`-th call, which settings are loaded then, which identifiers are drawn, and
whether the store is out of reach at that moment, in which case a store call fails and
changes nothing. A statement about every store is therefore a statement about every
behaviour of these.
-/

namespace SlogaBackend.Payments

/-! ## Calls on each collection -/

inductive OrderOp where
  | insert (o : PaymentOrder)
  | fetch (id : String)
  | fetchByUser (userId : String) (states : List OrderState)
  | acquire (id : String) (now untilMs : Int)
  | release (id : String) (untilMs : Int)
  | update (o : PaymentOrder) (expected : OrderState)
  | unlink (userId : String)
  deriving DecidableEq

abbrev OrderOp.Value : OrderOp → Type
  | .insert _ => Unit
  | .fetch _ => Option PaymentOrder
  | .fetchByUser _ _ => List PaymentOrder
  | .acquire _ _ _ => Option PaymentOrder
  | .release _ _ => Unit
  | .update _ _ => Bool
  | .unlink _ => Unit

def OrderOp.run : (op : OrderOp) → PaymentOrders → PaymentOrders × Result op.Value
  | .insert o, orders => insertPaymentOrder o orders
  | .fetch id, orders => (orders, .ok (fetchPaymentOrder id orders))
  | .fetchByUser userId states, orders => (orders, .ok (fetchPaymentOrdersByUser userId states orders))
  | .acquire id now untilMs, orders => acquirePaymentOrderLease id now untilMs orders
  | .release id untilMs, orders => (releasePaymentOrderLease id untilMs orders, .ok ())
  | .update o expected, orders => updatePaymentOrderIfState o expected orders
  | .unlink userId, orders => unlinkPaymentOrdersByUser userId orders

inductive MembershipOp where
  | insert (m : CipherMembership)
  | fetch (userId : String)
  | fetchByNumber (number : Nat)
  | update (m : CipherMembership) (expected : Nat)
  | delete (userId : String)
  | deleteIfVersion (userId : String) (expected : Nat)
  deriving DecidableEq

abbrev MembershipOp.Value : MembershipOp → Type
  | .insert _ => Bool
  | .fetch _ => Option CipherMembership
  | .fetchByNumber _ => Option CipherMembership
  | .update _ _ => Bool
  | .delete _ => Unit
  | .deleteIfVersion _ _ => Bool

def MembershipOp.run : (op : MembershipOp) → CipherMemberships → CipherMemberships × Result op.Value
  | .insert m, memberships => insertCipherMembership m memberships
  | .fetch userId, memberships => (memberships, .ok (memberships.get userId))
  | .fetchByNumber number, memberships =>
    (memberships, .ok (fetchCipherMembershipByNumber number memberships))
  | .update m expected, memberships => updateCipherMembershipIfVersion m expected memberships
  | .delete userId, memberships => (deleteCipherMembership userId memberships, .ok ())
  | .deleteIfVersion userId expected, memberships =>
    deleteCipherMembershipIfVersion userId expected memberships

inductive NumberOp where
  | claim (orderId : String) (cap : Nat)
  | fetchByOrder (orderId : String)
  | fetchRowByOrder (orderId : String)
  | markRelease (orderId : String) (at_ : Int)
  | cancelRelease (orderId : String)
  | release (orderId : String)
  | countClaimed
  | count
  deriving DecidableEq

abbrev NumberOp.Value : NumberOp → Type
  | .claim _ _ => Option Nat
  | .fetchByOrder _ => Option Nat
  | .fetchRowByOrder _ => Option CipherNumber
  | .markRelease _ _ => Bool
  | .cancelRelease _ => Bool
  | .release _ => Bool
  | .countClaimed => Nat
  | .count => Nat

def NumberOp.run : (op : NumberOp) → CipherNumbers → CipherNumbers × Result op.Value
  | .claim orderId cap, numbers => claimCipherNumber orderId cap numbers
  | .fetchByOrder orderId, numbers => (numbers, .ok (fetchCipherNumberByOrder orderId numbers))
  | .fetchRowByOrder orderId, numbers =>
    (numbers, .ok (fetchCipherNumberRowByOrder orderId numbers))
  | .markRelease orderId at_, numbers =>
    let (numbers, found) := markCipherNumberRelease orderId at_ numbers
    (numbers, .ok found)
  | .cancelRelease orderId, numbers =>
    let (numbers, found) := cancelCipherNumberRelease orderId numbers
    (numbers, .ok found)
  | .release orderId, numbers =>
    let (numbers, found) := releaseCipherNumber orderId numbers
    (numbers, .ok found)
  | .countClaimed, numbers => (numbers, countClaimedCipherNumbers numbers)
  | .count, numbers => (numbers, countCipherNumbers numbers)

inductive LedgerOp where
  | apply (posting : Prot.ProtPosting)
  | fetchEntry (key : String)
  | fetchAccount (id : String)
  | fetchByMembership (baseOrderId : String)
  | syncCipher (userId : String) (now : Int)
  | clawbackCipher (userId orderId : String) (now : Int)
  | forfeit (userId : String) (now : Int)
  deriving DecidableEq

abbrev LedgerOp.Value : LedgerOp → Type
  | .apply _ => Prot.ProtApplyOutcome
  | .fetchEntry _ => Option Prot.ProtLedgerEntry
  | .fetchAccount _ => Option Prot.ProtAccount
  | .fetchByMembership _ => List Prot.ProtLedgerEntry
  | .syncCipher _ _ => Prot.CipherProtSync
  | .clawbackCipher _ _ _ => Option Prot.ProtApplyOutcome
  | .forfeit _ _ => Option Prot.ProtApplyOutcome

def LedgerOp.run (sha256 : List UInt8 → List UInt8) (ulid : String) :
    (op : LedgerOp) → Prot.ReferenceDb → Prot.ReferenceDb × Result op.Value
  | .apply posting, db => Prot.applyProtPosting sha256 ulid posting db
  | .fetchEntry key, db => (db, .ok (db.protLedger.get key))
  | .fetchAccount id, db => (db, .ok (db.protAccounts.get id))
  | .fetchByMembership baseOrderId, db => (db, .ok (Prot.membershipRows db.protLedger baseOrderId))
  | .syncCipher userId now, db => Prot.syncCipherProt sha256 ulid userId now db
  | .clawbackCipher userId orderId now, db =>
    Prot.clawbackCipherProt sha256 ulid userId orderId now db
  | .forfeit userId now, db => Prot.forfeitProtWallet sha256 ulid userId now db

/-- What the engine reads of an account. -/
structure PaymentUser where
  deleted : Bool
  bot : Bool
  cipher : Option UserCipher

inductive UserOp where
  | fetch (userId : String)
  | setCipher (userId : String) (badge : Option UserCipher)
  deriving DecidableEq

abbrev UserOp.Value : UserOp → Type
  | .fetch _ => PaymentUser
  | .setCipher _ _ => Unit

def UserOp.run : (op : UserOp) → Table String PaymentUser → Table String PaymentUser × Result op.Value
  | .fetch userId, users =>
    match users.get userId with
    | some user => (users, .ok user)
    | none => (users, .error .notFound)
  | .setCipher userId badge, users =>
    match users.get userId with
    | some user => (users.insert userId { user with cipher := badge }, .ok ())
    | none => (users, .error .notFound)

inductive StripeOp where
  | createCheckoutSession (params : CheckoutSessionParams)
  | getCheckoutSession (id : String)
  | getPaymentIntent (id : String)
  | getPaymentCharge (paymentIntent : String)
  | createRefund (paymentIntent : String) (key : RefundKey)
  | getDispute (id : String)
  | listRefunds (paymentIntent : String)
  deriving DecidableEq

abbrev StripeOp.Value : StripeOp → Type
  | .createCheckoutSession _ => CheckoutSession
  | .getCheckoutSession _ => CheckoutSession
  | .getPaymentIntent _ => PaymentIntent
  | .getPaymentCharge _ => PaymentCharge
  | .createRefund _ _ => Refund
  | .getDispute _ => Dispute
  | .listRefunds _ => List Refund

/-! ## The store -/

/-- What is outside, moment by moment. -/
structure Outside where
  stripe : Nat → (op : StripeOp) → Except StripeError op.Value
  /-- Stripe took a refund although the answer to the call was an error. -/
  refundTaken : Nat → Bool
  protSettings : Nat → ProtSalesSettings
  ulid : Nat → String
  /-- A store call made now fails. -/
  outage : Nat → Option Error

/-- Everything the engine calls. -/
structure Store where
  orders : PaymentOrders
  numbers : CipherNumbers
  prot : Prot.ReferenceDb
  users : Table String PaymentUser
  outside : Outside
  tick : Nat

/-- The memberships live with the ledger, which bumps their versions. -/
def Store.memberships (s : Store) : CipherMemberships := s.prot.cipherMemberships

inductive Call where
  | orders (op : OrderOp)
  | memberships (op : MembershipOp)
  | numbers (op : NumberOp)
  | ledger (op : LedgerOp)
  | users (op : UserOp)
  | stripe (op : StripeOp)
  | protSettings
  deriving DecidableEq

abbrev Answer : Call → Type
  | .orders op => Result op.Value
  | .memberships op => Result op.Value
  | .numbers op => Result op.Value
  | .ledger op => Result op.Value
  | .users op => Result op.Value
  | .stripe op => Except StripeError op.Value
  | .protSettings => ProtSalesSettings

/-- Time passes with every call. -/
def Store.next (s : Store) : Store := { s with tick := s.tick + 1 }

section Perform

variable (sha256 : List UInt8 → List UInt8)

/-- A call that reaches its collection. -/
def Store.reach : (c : Call) → Store → Store × Answer c
  | .orders op, s => ({ s with orders := (op.run s.orders).1 }, (op.run s.orders).2)
  | .memberships op, s =>
    ({ s with prot := { s.prot with cipherMemberships := (op.run s.memberships).1 } },
      (op.run s.memberships).2)
  | .numbers op, s => ({ s with numbers := (op.run s.numbers).1 }, (op.run s.numbers).2)
  | .ledger op, s =>
    ({ s with prot := (op.run sha256 (s.outside.ulid s.tick) s.prot).1 },
      (op.run sha256 (s.outside.ulid s.tick) s.prot).2)
  | .users op, s => ({ s with users := (op.run s.users).1 }, (op.run s.users).2)
  | .stripe op, s => (s, s.outside.stripe s.tick op)
  | .protSettings, s => (s, s.outside.protSettings s.tick)

/-- The failure a call to an unreachable store answers with; Stripe and the settings are
elsewhere. -/
def failed : (c : Call) → Error → Option (Answer c)
  | .orders _, e => some (.error e)
  | .memberships _, e => some (.error e)
  | .numbers _, e => some (.error e)
  | .ledger _, e => some (.error e)
  | .users _, e => some (.error e)
  | .stripe _, _ => none
  | .protSettings, _ => none

/-- One call. -/
def Store.perform (c : Call) (s : Store) : Store × Answer c :=
  match (s.outside.outage s.tick).bind (failed c) with
  | some answer => (s.next, answer)
  | none => ((s.reach sha256 c).1.next, (s.reach sha256 c).2)

end Perform

abbrev Engine (α : Type) := Prog Error Call Answer α

end SlogaBackend.Payments
