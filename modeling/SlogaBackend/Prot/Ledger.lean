import SlogaBackend.Payments.Types
import SlogaBackend.Mls.SeatList

/-!
# The Prot ledger of the Reference driver

`models/prot`: the append-only, double-entry ledger, the balances kept beside it,
and the four operations that write to it. Every method of the driver takes the
maps it needs at its start and holds them to the end, so a method is one atomic
step; `forfeit_prot_wallet` alone is several, one for each pass.

A posting is decided before anything is written. `prepareLocked` runs every
check against the locked maps and `commitLocked`, which cannot fail, writes the
row and both sides. The Cipher operations plan a posting from the membership and
the rows of its incarnation, and bump the membership version before the commit.

SHA-256 and the fresh row ids come from packages outside the repository: the hash
is a parameter, and a row id is an argument of the step that writes the row.
-/

namespace SlogaBackend.Prot

open Checks Payments

/-! ## Rows, accounts and postings -/

/-- Kind of a ledger row. -/
inductive ProtEntryKind where
  | purchase
  | cipherFounding
  | cipherUpgrade
  | contribution
  | tierUpgrade
  | pledgeHold
  | pledgeCapture
  | pledgeReturn
  | pledgeWithdraw
  | launchReturn
  | burn
  | settlement
  | writeOff
  | clawback
  | clawbackHold
  | forfeit
  | forfeitHold
  | forfeitTank
  | adminAdjust
  deriving DecidableEq

/-- The stored name of a kind. -/
def ProtEntryKind.asStr : ProtEntryKind → String
  | .purchase => "Purchase"
  | .cipherFounding => "CipherFounding"
  | .cipherUpgrade => "CipherUpgrade"
  | .contribution => "Contribution"
  | .tierUpgrade => "TierUpgrade"
  | .pledgeHold => "PledgeHold"
  | .pledgeCapture => "PledgeCapture"
  | .pledgeReturn => "PledgeReturn"
  | .pledgeWithdraw => "PledgeWithdraw"
  | .launchReturn => "LaunchReturn"
  | .burn => "Burn"
  | .settlement => "Settlement"
  | .writeOff => "WriteOff"
  | .clawback => "Clawback"
  | .clawbackHold => "ClawbackHold"
  | .forfeit => "Forfeit"
  | .forfeitHold => "ForfeitHold"
  | .forfeitTank => "ForfeitTank"
  | .adminAdjust => "AdminAdjust"

/-- A Prot account with a balance document; system sides have none. -/
structure ProtAccount where
  id : String
  balance : Int
  /-- One more on every posting that names the account. -/
  version : Nat
  updatedAt : Int

/-- References carried by a ledger row. -/
structure ProtRef where
  orderId : Option String
  tankId : Option String
  goalId : Option String
  pledgeId : Option String
  day : Option String
  membershipNumber : Option Nat
  membershipOrderId : Option String
  deriving DecidableEq

/-- No reference. -/
def ProtRef.default : ProtRef := ⟨none, none, none, none, none, none, none⟩

/-- One append-only, double-entry ledger row. -/
structure ProtLedgerEntry where
  id : String
  key : String
  kind : ProtEntryKind
  debit : String
  credit : String
  amount : Int
  /-- What was asked for, on an `upTo` row. -/
  requested : Option Int
  /-- What could not be recovered, on an `upTo` row. -/
  shortfall : Option Int
  actor : String
  reference : ProtRef
  payloadHash : String
  reason : Option String
  createdAt : Int

/-- How much a posting moves. -/
inductive ProtAmount where
  | exact (n : Int)
  | upTo (n : Int)
  | all
  deriving DecidableEq

/-- One posting to apply atomically. -/
structure ProtPosting where
  key : String
  kind : ProtEntryKind
  debit : String
  credit : String
  amount : ProtAmount
  /-- Lowest balance the debit account may reach. -/
  debitFloor : Int
  actor : String
  reference : ProtRef
  reason : Option String
  createdAt : Int
  deriving DecidableEq

/-- What a posting did. -/
inductive ProtApplyOutcome where
  | applied (entry : ProtLedgerEntry)
  | alreadyApplied (entry : ProtLedgerEntry)

inductive CipherProtSync where
  | nothing
  | posted (outcome : ProtApplyOutcome)
  | overPosted (posted target : Int)

/-! ## Accounts and keys -/

def protSysIssued : String := "sys:issued"
def protSysClawed : String := "sys:clawed"
def protSysForfeited : String := "sys:forfeited"

def protActorPayments : String := "sys:payments"
def protActorCipher : String := "sys:cipher"
def protActorDeletion : String := "sys:account-deletion"

def protUserAccount (userId : String) : String := "user:" ++ userId

/-- Whether an account id is a system side. -/
def isProtSystemAccount (id : String) : Bool := (stripPrefix? "sys:" id).isSome

/-- First Cipher grant of a membership incarnation. -/
def protKeyCipherFounding (userId : String) (number : Nat) (baseOrderId : String) : String :=
  "cipher-founding:" ++ userId ++ ":" ++ number.repr ++ ":" ++ baseOrderId

/-- A later Cipher grant; `seq` is the number of grant rows already written. -/
def protKeyCipherUpgrade (userId : String) (number : Nat) (baseOrderId : String) (seq : Nat) :
    String :=
  "cipher-upgrade:" ++ userId ++ ":" ++ number.repr ++ ":" ++ baseOrderId ++ ":" ++ seq.repr

/-- Wallet part of a reversal, one key per reversed order. -/
def protKeyClawback (orderId : String) : String := "clawback:" ++ orderId

/-- Account-deletion forfeit pass. -/
def protKeyForfeit (userId : String) (n : Nat) : String := "forfeit:" ++ userId ++ ":" ++ n.repr

/-- The canonical text of a posting: what moves where and why. -/
def protPayload (p : ProtPosting) : String :=
  let amount := match p.amount with
    | .exact n => "exact:" ++ n.repr
    | .upTo n => "upto:" ++ n.repr
    | .all => "all"
  "\n".intercalate ["prot-posting/v1", "kind=" ++ p.kind.asStr, "currency=Prot",
    "debit=" ++ p.debit, "credit=" ++ p.credit, "amount=" ++ amount,
    "ref.order_id=" ++ p.reference.orderId.getD "",
    "ref.tank_id=" ++ p.reference.tankId.getD "",
    "ref.goal_id=" ++ p.reference.goalId.getD "",
    "ref.pledge_id=" ++ p.reference.pledgeId.getD "",
    "ref.day=" ++ p.reference.day.getD "",
    "ref.membership_number=" ++ (p.reference.membershipNumber.map Nat.repr).getD "",
    "ref.membership_order_id=" ++ p.reference.membershipOrderId.getD ""]

/-- SHA-256, lowercase hex, of the canonical text. -/
def protPayloadHash (sha256 : List UInt8 → List UInt8) (p : ProtPosting) : String :=
  Mls.toHex (sha256 (Mls.asBytes (protPayload p)))

/-! ## Checks of one posting -/

def protKeyMaxBytes : Nat := 255

/-- A refused posting is a programming error. -/
def invalidPosting : Error := .internalError

/-- Whether an account id names a side a posting may use. -/
def isValidProtSide (id : String) : Bool :=
  ["sys:", "user:", "tank:", "hold:"].any fun label =>
    match stripPrefix? label id with
    | some rest => decide (rest.toList ≠ [])
    | none => false

/-- The values the payload hash joins with newlines. -/
def hashedFields (p : ProtPosting) : List String :=
  [some p.debit, some p.credit, p.reference.orderId, p.reference.tankId, p.reference.goalId,
    p.reference.pledgeId, p.reference.day, p.reference.membershipOrderId].reduceOption

def validateProtAmount (posting : ProtPosting) : Result Unit :=
  match posting.amount with
  | .exact n => refuseIf (n ≤ 0) invalidPosting
  | .upTo n => do
    refuseIf (n ≤ 0) invalidPosting
    refuseIf (posting.kind ∉ [.clawback, .clawbackHold]) invalidPosting
  | .all => refuseIf (posting.kind ∉ [.forfeit, .forfeitHold, .forfeitTank]) invalidPosting

/-- Whether a posting moves an exact amount. -/
def ProtAmount.isExact : ProtAmount → Bool
  | .exact _ => true
  | _ => false

/-- Checks a posting passes before anything else. -/
def validateProtPosting (posting : ProtPosting) : Result Unit := do
  refuseIf (posting.key.toList = [] ∨ protKeyMaxBytes < posting.key.utf8ByteSize) invalidPosting
  refuseIf ('\n' ∈ posting.key.toList) invalidPosting
  refuseIf (posting.debit = posting.credit) invalidPosting
  refuseIf (¬ isValidProtSide posting.debit ∨ ¬ isValidProtSide posting.credit) invalidPosting
  refuseIf (∃ value ∈ hashedFields posting, '\n' ∈ value.toList) invalidPosting
  validateProtAmount posting
  -- a system side has no balance, so "up to what it holds" means nothing
  refuseIf (¬ posting.amount.isExact ∧ isProtSystemAccount posting.debit) invalidPosting

/-- What a posting moves, decided from the debit side's balance. -/
structure ProtResolved where
  amount : Int
  requested : Option Int
  shortfall : Option Int
  /-- What the debit side holds above its floor; 0 for a system debit. -/
  available : Int
  /-- Lowest balance the debit side needs for this amount. -/
  required : Int

/-- The amount, what was requested and what fell short. -/
def resolveAmounts (posting : ProtPosting) (system : Bool) (available : Int) :
    Result (Int × Option Int × Option Int) :=
  match posting.amount with
  | .exact n => do
    refuseIf (¬ system ∧ available < n) (.insufficientProt n available)
    return (n, none, none)
  | .upTo n => .ok (min n available, some n, some (n - min n available))
  | .all => .ok (available, none, none)

/-- The amount of a validated posting. -/
def resolveProtAmount (posting : ProtPosting) (debitBalance : Int) : Result ProtResolved := do
  let system := isProtSystemAccount posting.debit
  let available := if system then 0 else max (clampI64 (debitBalance - posting.debitFloor)) 0
  let (amount, requested, shortfall) ← resolveAmounts posting system available
  let required ← okOr (toI64 (posting.debitFloor + amount)) invalidPosting
  return ⟨amount, requested, shortfall, available, required⟩

/-- The row a posting writes. -/
def buildProtEntry (ulid : String) (posting : ProtPosting) (resolved : ProtResolved)
    (payloadHash : String) : ProtLedgerEntry where
  id := ulid
  key := posting.key
  kind := posting.kind
  debit := posting.debit
  credit := posting.credit
  amount := resolved.amount
  requested := resolved.requested
  shortfall := resolved.shortfall
  actor := posting.actor
  reference := posting.reference
  payloadHash := payloadHash
  reason := posting.reason
  createdAt := posting.createdAt

/-- A duplicate key, read back. -/
def duplicateOutcome (payloadHash : String) (stored : ProtLedgerEntry) : Result ProtApplyOutcome :=
  if stored.payloadHash = payloadHash then .ok (.alreadyApplied stored)
  else .error .protIdempotencyConflict

/-! ## Cipher plans -/

/-- What a membership should have posted: its grant while active, else 0. -/
def cipherProtTarget (m : CipherMembership) : Int := if m.isActive then m.protGrant else 0

/-- What one row adds to the posted amount of its incarnation. -/
def postedAfter (posted : Int) (row : ProtLedgerEntry) : Int :=
  match row.kind with
  | .cipherFounding => clampI64 (posted + row.amount)
  | .cipherUpgrade => clampI64 (posted + row.amount)
  | .clawback => clampI64 (posted - row.requested.getD row.amount)
  | _ => posted

/-- Prot posted for one membership incarnation, from its rows. -/
def cipherProtPosted (rows : List ProtLedgerEntry) : Int := rows.foldl postedAfter 0

def isCipherGrant (row : ProtLedgerEntry) : Bool :=
  row.kind = .cipherFounding || row.kind = .cipherUpgrade

/-- Number of grant rows, the next upgrade key's `seq`. -/
def cipherProtGrantCount (rows : List ProtLedgerEntry) : Nat := (rows.filter isCipherGrant).length

/-- What an upward sync does with one read of the membership and its rows. -/
inductive CipherSyncPlan where
  | done (sync : CipherProtSync)
  | post (posting : ProtPosting)

/-- The upward sync of a membership with a base order. -/
def planCipherSync (userId : String) (m : CipherMembership) (base : String)
    (rows : List ProtLedgerEntry) (now : Int) : CipherSyncPlan :=
  let posted := cipherProtPosted rows
  let target := cipherProtTarget m
  if ¬ m.isActive ∨ m.disputedOrders ≠ [] ∨ target ≤ posted then
    .done (if target < posted then .overPosted posted target else .nothing)
  else
    let seq := cipherProtGrantCount rows
    .post {
      key := if seq = 0 then protKeyCipherFounding userId m.number base
        else protKeyCipherUpgrade userId m.number base seq
      kind := if seq = 0 then .cipherFounding else .cipherUpgrade
      debit := protSysIssued
      credit := protUserAccount userId
      amount := .exact (target - posted)
      debitFloor := 0
      actor := protActorCipher
      reference := { ProtRef.default with
        orderId := m.orders.getLast?
        membershipNumber := some m.number
        membershipOrderId := some base }
      reason := none
      createdAt := now }

/-- The clawback posting, or `none` when nothing is posted above the target. -/
def planCipherClawback (userId orderId : String) (m : CipherMembership) (base : String)
    (rows : List ProtLedgerEntry) (now : Int) : Option ProtPosting :=
  let posted := cipherProtPosted rows
  let target := cipherProtTarget m
  if posted ≤ target then none
  else some {
    key := protKeyClawback orderId
    kind := .clawback
    debit := protUserAccount userId
    credit := protSysClawed
    amount := .upTo (posted - target)
    debitFloor := 0
    actor := protActorPayments
    reference := { ProtRef.default with
      orderId := some orderId
      membershipNumber := some m.number
      membershipOrderId := some base }
    reason := none
    createdAt := now }

/-- Forfeit pass `n` of a user's wallet. -/
def forfeitPosting (userId : String) (n : Nat) (now : Int) : ProtPosting where
  key := protKeyForfeit userId n
  kind := .forfeit
  debit := protUserAccount userId
  credit := protSysForfeited
  amount := .all
  debitFloor := 0
  actor := protActorDeletion
  reference := ProtRef.default
  reason := none
  createdAt := now

/-! ## The locked maps -/

/-- The collections the ledger operations lock, in lock order. -/
structure ReferenceDb where
  cipherMemberships : Table String CipherMembership
  protLedger : Table String ProtLedgerEntry
  protAccounts : Table String ProtAccount

/-- A posting whose checks all passed, ready to write. -/
structure PreparedPosting where
  entry : ProtLedgerEntry
  /-- New balance of the debit side; `none` for a system debit. -/
  debitBalance : Option Int
  /-- New balance of the credit side; `none` for a system credit. -/
  creditBalance : Option Int

/-- The checks of a posting against the locked maps. -/
inductive Prepared where
  | duplicate (stored : ProtLedgerEntry)
  | new (prepared : PreparedPosting)

/-- The balance of an account; 0 when it has no document. -/
def balanceOf (accounts : Table String ProtAccount) (id : String) : Int :=
  match accounts.get id with
  | some account => account.balance
  | none => 0

def sideBalance (accounts : Table String ProtAccount) (id : String) (delta : Int) :
    Result (Option Int) :=
  if isProtSystemAccount id then .ok none
  else do
    let balance ← okOr (toI64 (balanceOf accounts id + delta)) invalidPosting
    return some balance

/-- Every check of a validated posting, nothing written. -/
def prepareLocked (ledger : Table String ProtLedgerEntry) (accounts : Table String ProtAccount)
    (ulid : String) (posting : ProtPosting) (payloadHash : String) : Result Prepared :=
  match ledger.get posting.key with
  | some stored => .ok (.duplicate stored)
  | none => do
    let resolved ← resolveProtAmount posting (balanceOf accounts posting.debit)
    let debitBalance ← sideBalance accounts posting.debit (-resolved.amount)
    let creditBalance ← sideBalance accounts posting.credit resolved.amount
    refuseIf (0 < resolved.amount ∧ ∃ balance ∈ debitBalance, balance < posting.debitFloor)
      (.insufficientProt resolved.amount resolved.available)
    return .new ⟨buildProtEntry ulid posting resolved payloadHash, debitBalance, creditBalance⟩

/-- Write one side of a prepared posting. -/
def commitSide (accounts : Table String ProtAccount) (createdAt : Int) (id : String) :
    Option Int → Table String ProtAccount
  | none => accounts
  | some balance =>
    let version := match accounts.get id with
      | some account => account.version
      | none => 0
    accounts.insert id ⟨id, balance, min (version + 1) maxU64, createdAt⟩

/-- Write a prepared posting: both sides, then the row. -/
def commitLocked (db : ReferenceDb) (prepared : PreparedPosting) : ReferenceDb :=
  let entry := prepared.entry
  let accounts := commitSide db.protAccounts entry.createdAt entry.debit prepared.debitBalance
  let accounts := commitSide accounts entry.createdAt entry.credit prepared.creditBalance
  { db with
    protLedger := db.protLedger.insert entry.key entry
    protAccounts := accounts }

/-- Rows of one membership incarnation, oldest id first. -/
def membershipRows (ledger : Table String ProtLedgerEntry) (baseOrderId : String) :
    List ProtLedgerEntry :=
  (ledger.values.filter fun row => row.reference.membershipOrderId = some baseOrderId).mergeSort
    fun a b => a.id ≤ b.id

def bumpCipherMembershipVersionLocked (memberships : Table String CipherMembership)
    (userId : String) (expected : Nat) : Option (Table String CipherMembership) :=
  match memberships.get userId with
  | some row =>
    if row.version = expected then
      (checkedSuccU64 expected).map fun next => memberships.insert userId { row with version := next }
    else none
  | none => none

/-! ## The operations -/

section Operations

variable (sha256 : List UInt8 → List UInt8)

/-- Validation, then the checks against the locked maps. -/
def checkPosting (db : ReferenceDb) (ulid : String) (posting : ProtPosting) : Result Prepared := do
  validateProtPosting posting
  prepareLocked db.protLedger db.protAccounts ulid posting (protPayloadHash sha256 posting)

def applyProtPosting (ulid : String) (posting : ProtPosting) (db : ReferenceDb) :
    ReferenceDb × Result ProtApplyOutcome :=
  match checkPosting sha256 db ulid posting with
  | .error e => (db, .error e)
  | .ok (.duplicate stored) => (db, duplicateOutcome (protPayloadHash sha256 posting) stored)
  | .ok (.new prepared) => (commitLocked db prepared, .ok (.applied prepared.entry))

/-- A Cipher sync or clawback whose state kept moving under it. -/
def stateRetriesExhausted : Error := .databaseError "transaction" "prot_ledger"

/-- Cipher upward sync for one user, under the three locks. -/
def syncCipherProt (ulid userId : String) (now : Int) (db : ReferenceDb) :
    ReferenceDb × Result CipherProtSync :=
  match db.cipherMemberships.get userId with
  | none => (db, .ok .nothing)
  | some m =>
    match m.orders.head? with
    | none => (db, .ok .nothing)
    | some base =>
      match planCipherSync userId m base (membershipRows db.protLedger base) now with
      | .done sync => (db, .ok sync)
      | .post posting =>
        match checkPosting sha256 db ulid posting with
        | .error e => (db, .error e)
        | .ok (.duplicate stored) =>
          if stored.payloadHash = protPayloadHash sha256 posting then
            (db, .ok (.posted (.alreadyApplied stored)))
          else (db, .error stateRetriesExhausted)
        | .ok (.new prepared) =>
          -- the bump runs before the ledger write, so a miss changes nothing
          match bumpCipherMembershipVersionLocked db.cipherMemberships userId m.version with
          | none => (db, .error stateRetriesExhausted)
          | some memberships =>
            (commitLocked { db with cipherMemberships := memberships } prepared,
              .ok (.posted (.applied prepared.entry)))

/-- Cipher downward sync after a reversal of an order, under the three locks. -/
def clawbackCipherProt (ulid userId orderId : String) (now : Int) (db : ReferenceDb) :
    ReferenceDb × Result (Option ProtApplyOutcome) :=
  match db.protLedger.get (protKeyClawback orderId) with
  | some stored => (db, .ok (some (.alreadyApplied stored)))
  | none =>
    match db.cipherMemberships.get userId with
    | none => (db, .ok none)
    | some m =>
      match m.orders.head? with
      | none => (db, .ok none)
      | some base =>
        -- an order of an older incarnation: its Prot was settled when it was revoked
        if orderId < base then (db, .ok none)
        else
          match planCipherClawback userId orderId m base (membershipRows db.protLedger base) now with
          | none => (db, .ok none)
          | some posting =>
            match checkPosting sha256 db ulid posting with
            | .error e => (db, .error e)
            | .ok (.duplicate stored) => (db, .ok (some (.alreadyApplied stored)))
            | .ok (.new prepared) =>
              match bumpCipherMembershipVersionLocked db.cipherMemberships userId m.version with
              | none => (db, .error stateRetriesExhausted)
              | some memberships =>
                (commitLocked { db with cipherMemberships := memberships } prepared,
                  .ok (some (.applied prepared.entry)))

/-- The posting of the next forfeit pass: its number is one more than the
forfeit rows already debiting the wallet. -/
def nextForfeitPosting (userId : String) (now : Int) (db : ReferenceDb) : ProtPosting :=
  let passes := (db.protLedger.values.filter fun row =>
    row.kind = .forfeit ∧ row.debit = protUserAccount userId).length
  forfeitPosting userId (passes + 1) now

def protForfeitPass (ulid userId : String) (now : Int) (db : ReferenceDb) :
    ReferenceDb × Result ProtApplyOutcome :=
  applyProtPosting sha256 ulid (nextForfeitPosting userId now db) db

/-- Bound on forfeit passes. -/
def protStateRetries : Nat := 5

def runForfeitPasses (ulid userId : String) (now : Int) :
    Nat → ReferenceDb → ReferenceDb × Result (Option ProtApplyOutcome)
  | 0, db => (db, .error .internalError)
  | passes + 1, db =>
    match protForfeitPass sha256 ulid userId now db with
    | (db, .error e) => (db, .error e)
    | (db, .ok (.applied entry)) => (db, .ok (some (.applied entry)))
    | (db, .ok (.alreadyApplied entry)) =>
      if balanceOf db.protAccounts (protUserAccount userId) ≤ 0 then
        (db, .ok (some (.alreadyApplied entry)))
      else runForfeitPasses ulid userId now passes db

/-- Account deletion: move the whole wallet away. -/
def forfeitProtWallet (ulid userId : String) (now : Int) (db : ReferenceDb) :
    ReferenceDb × Result (Option ProtApplyOutcome) :=
  if balanceOf db.protAccounts (protUserAccount userId) ≤ 0 then (db, .ok none)
  else runForfeitPasses sha256 ulid userId now protStateRetries db

/-! ## Calls -/

/-- The calls a run is made of. `protForfeitPass` is one locked section of a
forfeit, so that runs also hold every interleaving of a forfeit's passes with
other calls; `writeMembership` is any other writer of the membership table. -/
inductive ProtCall where
  | applyProtPosting (ulid : String) (posting : ProtPosting)
  | syncCipherProt (ulid userId : String) (now : Int)
  | clawbackCipherProt (ulid userId orderId : String) (now : Int)
  | forfeitProtWallet (ulid userId : String) (now : Int)
  | protForfeitPass (ulid userId : String) (now : Int)
  | writeMembership (userId : String) (row : Option CipherMembership)

inductive ProtAnswer where
  | outcome (result : Result ProtApplyOutcome)
  | sync (result : Result CipherProtSync)
  | optional (result : Result (Option ProtApplyOutcome))
  | written

/-- The call wrote a row. -/
def ProtAnswer.Applied : ProtAnswer → Prop
  | .outcome result => ∃ entry, result = .ok (.applied entry)
  | .sync result => ∃ entry, result = .ok (.posted (.applied entry))
  | .optional result => ∃ entry, result = .ok (some (.applied entry))
  | .written => False

/-- One call. -/
def exec (db : ReferenceDb) : ProtCall → ReferenceDb × ProtAnswer
  | .applyProtPosting ulid posting =>
    let (db, result) := applyProtPosting sha256 ulid posting db
    (db, .outcome result)
  | .syncCipherProt ulid userId now =>
    let (db, result) := syncCipherProt sha256 ulid userId now db
    (db, .sync result)
  | .clawbackCipherProt ulid userId orderId now =>
    let (db, result) := clawbackCipherProt sha256 ulid userId orderId now db
    (db, .optional result)
  | .forfeitProtWallet ulid userId now =>
    let (db, result) := forfeitProtWallet sha256 ulid userId now db
    (db, .optional result)
  | .protForfeitPass ulid userId now =>
    let (db, result) := protForfeitPass sha256 ulid userId now db
    (db, .outcome result)
  | .writeMembership userId row =>
    ({ db with cipherMemberships := match row with
        | some m => db.cipherMemberships.insert userId m
        | none => db.cipherMemberships.erase userId }, .written)

end Operations

end SlogaBackend.Prot
