import SlogaBackend.Payments.Engine

/-!
# The payments engine: reversals and releases

Refunds and disputes of an order, as `engine.rs` applies them. Before fulfilment they are
recorded on the order. After it a refund inside the window is undone (an upgrade is
rolled back, a purchase gives its number back), and everything else revokes the
membership and retires the number.

A release is decided on the number row and then runs in steps that any later delivery
carries on: revoke the membership, refund the upgrades on it, delete it, record the
order, put the number back.
-/

namespace SlogaBackend.Payments

inductive ReverseOutcome where
  | applied
  | recordedPending
  | noOp
  | busy

/-! ## Disputes as Stripe reports them -/

/-- Whether a payment intent is the payment of an order not marked paid yet. -/
def namesOrder (s : PaymentsSettings) (order : PaymentOrder) (disputed : String)
    (intent : PaymentIntent) : Bool :=
  intent.id == disputed && intent.livemode == s.expectLivemode &&
    intent.metadataOrderId == some order.id

/-- The reversal a dispute's current status calls for, once the dispute is shown to be on
the order's payment. -/
def currentDisputeKind (s : PaymentsSettings) (order : PaymentOrder) (disputeId : String) :
    Engine ReverseKind := do
  let dispute : Dispute ← stripeOrProviderError (.getDispute disputeId)
  if dispute.id ≠ disputeId then failWith .paymentProviderError
  else
    match dispute.paymentIntent with
    | none => failWith .paymentProviderError
    | some disputed =>
      match order.paymentIntentId with
      | some paidBy =>
        if paidBy = disputed then return disputeKind dispute.status
        else failWith .paymentProviderError
      | none => do
        let intent : PaymentIntent ← stripeOrProviderError (.getPaymentIntent disputed)
        if namesOrder s order disputed intent then return disputeKind dispute.status
        else failWith .paymentProviderError

/-! ## Before fulfilment -/

/-- What is pending on an order once a reversal is recorded. -/
def pendingAfter (order : PaymentOrder) : ReverseKind → Option ReversalPending
  | .refund => some (order.reversalPending.getD .refund)
  | .disputeLost => some .disputeLost
  | .disputeOpened => order.reversalPending
  | .disputeWon => order.reversalPending

def recordReversal (pending : Option ReversalPending) (openDisputes : List String)
    (o : PaymentOrder) : PaymentOrder :=
  { o with reversalPending := pending, openDisputes := openDisputes }

/-- Mirror the disputes of an order into a membership that holds it already. -/
def mirrorDisputes (order : PaymentOrder) : Engine Unit := do
  match order.userId with
  | none => return ()
  | some userId =>
    if ← setDisputeListing userId order.id (isDisputed order) then syncUserBadge userId
    else return ()

/-- A reversal or dispute status of an order that is not fulfilled yet. -/
def recordBeforeFulfilment (kind : ReverseKind) (dispute : Option String) :
    Work ReverseOutcome := do
  let order ← Work.order
  let pending := pendingAfter order kind
  let openDisputes := disputesAfter order kind dispute
  Work.onlyIf (pending != order.reversalPending || openDisputes != order.openDisputes)
    (Work.write (recordReversal pending openDisputes))
  let order ← Work.order
  mirrorDisputes order
  return .recordedPending

/-! ## Recording the order -/

def recordRefunded (nowMs : Int) (o : PaymentOrder) : PaymentOrder :=
  { o with state := .refunded, reversedAt := some nowMs, reversalPending := none }

def recordRefundedSettled (nowMs : Int) (o : PaymentOrder) : PaymentOrder :=
  { o with
    state := .refunded
    reversedAt := some nowMs
    reversalPending := none
    refundSettlingSince := none }

/-- Record the leased order refunded, with no refund left settling. -/
def markRefunded (nowMs : Int) : Work Unit := Work.write (recordRefundedSettled nowMs)

def markRefundedIfFulfilled (nowMs : Int) : Work Unit := do
  let order ← Work.order
  Work.onlyIf (order.state == .fulfilled) (markRefunded nowMs)

def clearPending (o : PaymentOrder) : PaymentOrder := { o with reversalPending := none }

/-- A reversal of a fulfilled order that no membership lists: a recorded one is cleared. -/
def noMembershipToReverse : Work ReverseOutcome := do
  let order ← Work.order
  Work.onlyIf order.reversalPending.isSome (Work.write clearPending)
  return .noOp

def ReverseKind.takesBack : ReverseKind → Bool
  | .refund => true
  | .disputeLost => true
  | .disputeOpened => false
  | .disputeWon => false

/-- A reversal of a fulfilled order of a live buyer whose membership does not list it. -/
def unlistedReversal (kind : ReverseKind) (userId : String) (nowMs : Int) :
    Work ReverseOutcome := do
  if kind.takesBack then do
    let order ← Work.order
    let _ ← clawbackCipherOrder userId order.id nowMs
    syncUserBadge userId
    Work.write (recordRefunded nowMs)
    return .noOp
  else noMembershipToReverse

/-! ## A dispute lost on a refunded order -/

def revokedForDispute (m : CipherMembership) : CipherMembership :=
  { m with revokeReason := some .disputeLost }

def lostAfterRefundTries (orderId userId : String) : Nat → Engine ReverseOutcome
  | 0 => failWith .internalError
  | tries + 1 => do
    match ← memberships (.fetch userId) with
    | none => return .noOp
    | some m =>
      if orderId ∉ m.orders ∨ m.revokeReason ≠ some .refund then return .noOp
      else do
        let written : Bool ← memberships (.update (revokedForDispute m) m.version)
        if written then return .applied
        else lostAfterRefundTries orderId userId tries

/-- A dispute lost on an order already refunded: its membership is revoked for it. -/
def disputeLostAfterRefund : Work ReverseOutcome := do
  let order ← Work.order
  match order.userId with
  | none => return .noOp
  | some userId => lostAfterRefundTries order.id userId membershipRetries

/-! ## Releasing a number -/

/-- Whether the refunds that succeeded add up to the amount. -/
def refundedInFull (paymentIntent : String) (amountCents : Int) : Engine Bool := do
  let answer ← stripe (.listRefunds paymentIntent)
  return match answer with
    | .ok refunds => (refundFacts refunds amountCents 0 0).any (·.full)
    | .error _ => false

/-- Record an upgrade order refunded under its own lease; `false` when it is held. -/
def recordUpgradeRefunded (orderId : String) (nowMs : Int) : Engine Bool := do
  match ← acquire orderId nowMs with
  | none => return false
  | some leased => do
    let (result, _) ← underLease leased do
      let order ← Work.order
      Work.onlyIf (order.state != .refunded && order.state != .voided) (markRefunded nowMs)
      return true
    check result

/-- Refund one upgrade of a membership being released and record it; `false` while it is
not recorded. -/
def refundReleaseUpgrade (id : String) (nowMs : Int) : Engine Bool := do
  match ← orders (.fetch id) with
  | none => return true
  | some upgrade =>
    if upgrade.state = .refunded ∨ upgrade.state = .voided then return true
    else
      match upgrade.paymentIntentId with
      | none => return false
      | some paymentIntent =>
        if isDisputed upgrade then return false
        else do
          match ← (askRefund paymentIntent (.releaseUpgrade id)).attempt with
          | .ok .done => recordUpgradeRefunded id nowMs
          | .ok .alreadyRefunded => do
            if ← refundedInFull paymentIntent upgrade.amountCents then recordUpgradeRefunded id nowMs
            else return false
          | .ok .unsettled => return false
          | .ok .refused => return false
          | .error _ => return false

/-- Every upgrade in turn, whether or not one of them has to wait. -/
def refundReleaseUpgradeList (nowMs : Int) : List String → Engine Bool
  | [] => return true
  | id :: rest => do
    let recorded ← refundReleaseUpgrade id nowMs
    let others ← refundReleaseUpgradeList nowMs rest
    return recorded && others

/-- Refund every paid upgrade on the membership but the purchase being released. -/
def refundReleaseUpgrades (m : CipherMembership) (releasedBy : String) (nowMs : Int) :
    Engine Bool :=
  refundReleaseUpgradeList nowMs (m.orders.filter fun id => id != releasedBy)

/-- Drop the release decided for the leased order: its number stays retired. -/
def keepNumberRetired (nowMs : Int) : Work ReverseOutcome := do
  let order ← Work.order
  markRefundedIfFulfilled nowMs
  let _ ← numbers (.cancelRelease order.id)
  return .applied

/-- A row replaced meanwhile: the upgrades left are looked up for the log. -/
def logUpgradesLeftUnrefunded (released : PaymentOrder) : Engine Unit := do
  match released.userId with
  | none => return ()
  | some userId => do
    let _ ← orders (.fetchByUser userId [.paid, .fulfilled])
    return ()

def revokedFor (m : CipherMembership) (reason : CipherRevokeReason) (nowMs : Int) :
    CipherMembership :=
  { m with revokedAt := some nowMs, revokeReason := some reason }

/-- What keeps a number retired although its release was decided. -/
def retiresNumber (m : CipherMembership) (order : PaymentOrder) : Engine Bool := do
  if m.protPostedAt.isSome then return true
  else do
    let shortfall ← membershipShortfall m
    return decide (0 < shortfall) || m.revokeReason != some .refund ||
      !m.disputedOrders.isEmpty || isDisputed order

/-- The badge follows a revoke that was written. -/
def syncIfWritten (userId : String) (written : Bool) : Engine Unit :=
  if written then syncUserBadge userId else pure ()

/-- Steps 1 to 3 of a release: revoke the membership that lists the order, refund its
upgrades, delete it. A result ends the release here; none goes on with the order. -/
def releaseMembershipTries (userId : String) (nowMs : Int) : Nat → Work (Option ReverseOutcome)
  | 0 => Work.fail .internalError
  | tries + 1 => do
    let order ← Work.order
    match ← memberships (.fetch userId) with
    | none => return none
    | some m =>
      if order.id ∉ m.orders then do
        logUpgradesLeftUnrefunded order
        return none
      else if m.isActive then do
        let written : Bool ← memberships (.update (revokedFor m .refund nowMs) m.version)
        syncIfWritten userId written
        releaseMembershipTries userId nowMs tries
      else do
        if ← clawbackCipherOrder userId order.id nowMs then releaseMembershipTries userId nowMs tries
        else do
          if ← retiresNumber m order then do
            let outcome ← keepNumberRetired nowMs
            return some outcome
          else do
            Work.write id
            if ← refundReleaseUpgrades m order.id nowMs then do
              Work.write id
              let deleted : Bool ← memberships (.deleteIfVersion userId m.version)
              if deleted then return none
              else releaseMembershipTries userId nowMs tries
            else return some .recordedPending

/-- Steps 1 to 3 for a buyer that is still linked. -/
def releaseMembership (nowMs : Int) : Work (Option ReverseOutcome) := do
  let order ← Work.order
  match order.userId with
  | none => return none
  | some userId => do
    match ← releaseMembershipTries userId nowMs membershipRetries with
    | some outcome => return some outcome
    | none => do
      syncUserBadge userId
      return none

/-- Step 5: the number back to the pool, once no row holds it. -/
def putNumberBack (orderId : String) (number : Nat) : Engine ReverseOutcome := do
  match ← memberships (.fetchByNumber number) with
  | some _ => failWith .internalError
  | none => do
    let _ ← numbers (.release orderId)
    return .applied

/-- Whether an order is a new purchase. -/
def Sku.isCipherNew : Sku → Bool
  | .cipherNew _ => true
  | _ => false

/-- Finish the release decided for the leased order, if one was. -/
def finishNumberReleaseLocked (nowMs : Int) : Work (Option ReverseOutcome) := do
  let order ← Work.order
  if !order.sku.isCipherNew then return none
  else do
    match ← numbers (.fetchRowByOrder order.id) with
    | none => return none
    | some row =>
      if row.releasePendingAt.isNone then return none
      else do
        match ← releaseMembership nowMs with
        | some outcome => return some outcome
        | none => do
          markRefundedIfFulfilled nowMs
          let outcome ← putNumberBack order.id row.number
          return some outcome

def dropReleaseForLostDispute : Work Unit := do
  let order ← Work.order
  let row ← numbers (.fetchRowByOrder order.id)
  if row.any fun row => row.releasePendingAt.isSome then do
    Work.write id
    let _ ← numbers (.cancelRelease order.id)
    return ()
  else return ()

/-! ## A refund inside the window -/

/-- What a full refund inside the window does instead of revoking. -/
inductive WindowRefund where
  | downgrade (fromTier : CipherTier)
  | release
  | refundOnly

def refundReleaseWindowMs : Int := 14 * 24 * 3600 * 1000

def refundGraceMs : Int := 3 * 24 * 3600 * 1000

/-- Whether a refund is a full one of an undisputed order inside its window, with no Prot
credited by hand. -/
def refundInWindow (order : PaymentOrder) (m : CipherMembership) (refund : RefundFacts) : Bool :=
  refund.full && m.protPostedAt.isNone && !isDisputed order && order.paidAt.any fun paidAt =>
      decide (clampI64 (refund.refundedAtMs - paidAt) ≤ refundReleaseWindowMs + refundGraceMs)

/-- The rule for a purchase or an upgrade that is listed in a membership. -/
def windowRefundPlanListed (order : PaymentOrder) (m : CipherMembership) :
    Engine (Option WindowRefund) := do
  match order.sku with
  | .cipherUpgrade fromTier toTier =>
    if !m.isActive then return none
    else if m.tier ≠ toTier ∨ m.orders.getLast? ≠ some order.id then return some .refundOnly
    else return some (.downgrade fromTier)
  | .cipherNew _ =>
    if !m.disputedOrders.isEmpty || (!m.isActive && m.revokeReason != some .refund) then
      return none
    else do
      let number : Option Nat ← numbers (.fetchByOrder order.id)
      if number = some m.number then return some .release else return none
  | .protPack _ _ _ => return none
  | .protExact _ => return none

def windowRefundPlanCipher (order : PaymentOrder) (m : CipherMembership)
    (refund : Option RefundFacts) : Engine (Option WindowRefund) := do
  if order.id ∉ m.orders then return none
  else
    match refund with
    | none => return none
    | some refund =>
      if refundInWindow order m refund then windowRefundPlanListed order m else return none

/-- The window rule: the Prot the undo claws back must be there. -/
def windowRefundPlan (order : PaymentOrder) (m : CipherMembership) (refund : Option RefundFacts) :
    Engine (Option WindowRefund) := do
  match ← windowRefundPlanCipher order m refund with
  | some (.downgrade fromTier) => do
    if ← windowClawbackCovered m (tierProt fromTier) then return some (.downgrade fromTier)
    else return none
  | some .release => do
    if ← windowClawbackCovered m 0 then return some .release else return none
  | some .refundOnly => return some .refundOnly
  | none => return none

/-- The membership with an upgrade taken back. -/
def rolledBack (m : CipherMembership) (orderId : String) (fromTier : CipherTier) :
    CipherMembership :=
  { m with
    tier := fromTier
    protGrant := tierProt fromTier
    orders := m.orders.filter fun id => id != orderId
    disputedOrders := m.disputedOrders.filter fun id => id != orderId }

/-- The tries of a refund inside the window; none leaves it to the revoke rule. -/
def refundWithinWindowTries (userId : String) (refund : Option RefundFacts) (nowMs : Int) :
    Nat → Work (Option ReverseOutcome)
  | 0 => Work.fail .internalError
  | tries + 1 => do
    let order ← Work.order
    match ← memberships (.fetch userId) with
    | none => return none
    | some m =>
      match ← windowRefundPlan order m refund with
      | none => return none
      | some .refundOnly => do
        markRefunded nowMs
        return some .noOp
      | some .release => do
        Work.write id
        let marked : Bool ← numbers (.markRelease order.id nowMs)
        if marked then finishNumberReleaseLocked nowMs else return none
      | some (.downgrade fromTier) => do
        let written : Bool ← memberships (.update (rolledBack m order.id fromTier) m.version)
        if written then do
          let _ ← clawbackCipherOrder userId order.id nowMs
          syncUserBadge userId
          markRefunded nowMs
          return some .applied
        else refundWithinWindowTries userId refund nowMs tries

/-! ## A fulfilled order -/

def reversedMembership (m : CipherMembership) (orderId : String) (kind : ReverseKind)
    (listed : Bool) (nowMs : Int) : CipherMembership :=
  let next := if kind.takesBack && m.isActive then
      revokedFor m (if kind = .refund then .refund else .disputeLost) nowMs
    else m
  let next := if kind = .disputeLost ∧ next.revokeReason = some .refund then revokedForDispute next
    else next
  if kind ≠ .refund then
    if listed && !decide (orderId ∈ next.disputedOrders) then withDisputeListing next orderId true
    else if !listed && decide (orderId ∈ next.disputedOrders) then
      withDisputeListing next orderId false
    else next
  else next

/-- The tries of a revoke: `false` when no membership lists the order. -/
def reverseMembershipTries (userId orderId : String) (kind : ReverseKind) (listed : Bool)
    (nowMs : Int) : Nat → Engine Bool
  | 0 => failWith .internalError
  | tries + 1 => do
    match ← memberships (.fetch userId) with
    | none => return false
    | some m =>
      if orderId ∉ m.orders then return false
      else
        let next := reversedMembership m orderId kind listed nowMs
        if next = m then return true
        else do
          let written : Bool ← memberships (.update next m.version)
          if written then return true
          else reverseMembershipTries userId orderId kind listed nowMs tries

/-- The Prot of a revoked membership is clawed back. -/
def clawbackIfTaken (kind : ReverseKind) (userId orderId : String) (nowMs : Int) : Engine Unit := do
  if kind.takesBack then do
    let _ ← clawbackCipherOrder userId orderId nowMs
    return ()
  else return ()

/-- Revoke and retire, or move the dispute listing. -/
def revokeMembership (kind : ReverseKind) (userId : String) (nowMs : Int) :
    Work ReverseOutcome := do
  let order ← Work.order
  let listed := match kind with
    | .disputeLost => !order.openDisputes.isEmpty
    | _ => isDisputed order
  if ← reverseMembershipTries userId order.id kind listed nowMs membershipRetries then do
    clawbackIfTaken kind userId order.id nowMs
    syncUserBadge userId
    Work.onlyIf kind.takesBack (Work.write (recordRefunded nowMs))
    return .applied
  else unlistedReversal kind userId nowMs

def reverseProtFulfilled (kind : ReverseKind) (nowMs : Int) : Work ReverseOutcome := do
  if !kind.takesBack then return .noOp
  else do
    let order ← Work.order
    match order.userId with
    | none => do
      Work.write (recordRefunded nowMs)
      return .applied
    | some userId => do
      clawbackPurchase order.id userId nowMs
      Work.write (recordRefunded nowMs)
      return .applied

/-- A reversal of a linked Cipher order with no release left to finish. -/
def reverseListed (kind : ReverseKind) (refund : Option RefundFacts) (userId : String)
    (nowMs : Int) : Work ReverseOutcome := do
  if kind = .refund then do
    match ← refundWithinWindowTries userId refund nowMs membershipRetries with
    | some outcome => return outcome
    | none => revokeMembership kind userId nowMs
  else revokeMembership kind userId nowMs

/-- A reversal of a fulfilled Cipher order, after the dispute bookkeeping. -/
def reverseCipherFulfilled (kind : ReverseKind) (refund : Option RefundFacts) (nowMs : Int) :
    Work ReverseOutcome := do
  Work.onlyIf (kind == .disputeLost) dropReleaseForLostDispute
  match ← finishNumberReleaseLocked nowMs with
  | some outcome => return outcome
  | none => do
    let order ← Work.order
    match order.userId with
    | none => noMembershipToReverse
    | some userId => reverseListed kind refund userId nowMs

def recordDisputes (openDisputes : List String) (o : PaymentOrder) : PaymentOrder :=
  { o with openDisputes := openDisputes }

/-- A reversal of a fulfilled order: the order records the dispute first. -/
def reverseFulfilled (kind : ReverseKind) (dispute : Option String) (refund : Option RefundFacts)
    (nowMs : Int) : Work ReverseOutcome := do
  let order ← Work.order
  let openDisputes := disputesAfter order kind dispute
  Work.onlyIf (openDisputes != order.openDisputes) (Work.write (recordDisputes openDisputes))
  if order.sku.family = .prot then reverseProtFulfilled kind nowMs
  else reverseCipherFulfilled kind refund nowMs

/-- A reversal of an order whose lease the caller holds. -/
def reverseLocked (kind : ReverseKind) (dispute : Option String) (refund : Option RefundFacts)
    (nowMs : Int) : Work ReverseOutcome := do
  if dispute.isNone && (kind == .disputeOpened || kind == .disputeWon) then Work.fail .internalError
  else do
    let order ← Work.order
    match order.state with
    | .refunded => if kind = .disputeLost then disputeLostAfterRefund else return .noOp
    | .voided => return .noOp
    | .fulfilled => reverseFulfilled kind dispute refund nowMs
    | _ => recordBeforeFulfilment kind dispute

/-- Re-read every dispute the leased order lists as open. -/
def recheckDisputeList (s : PaymentsSettings) (nowMs : Int) : List String → Work Unit
  | [] => return ()
  | disputeId :: rest => do
    let order ← Work.order
    if order.state = .voided ∨ order.state = .refunded then return ()
    else do
      let kind ← currentDisputeKind s order disputeId
      let _ ← reverseLocked kind (some disputeId) none nowMs
      recheckDisputeList s nowMs rest

def recheckOpenDisputes (s : PaymentsSettings) (nowMs : Int) : Work Unit := do
  let order ← Work.order
  recheckDisputeList s nowMs order.openDisputes

/-! ## Deliveries -/

def clearSettling (o : PaymentOrder) : PaymentOrder := { o with refundSettlingSince := none }

/-- A reversal, and the end of a refund that was settling. -/
def reverseAndClear (kind : ReverseKind) (refund : Option RefundFacts) (nowMs : Int) :
    Work ReverseOutcome := do
  let outcome ← reverseLocked kind none refund nowMs
  let order ← Work.order
  Work.onlyIf (kind == .refund && order.refundSettlingSince.isSome) (Work.write clearSettling)
  return outcome

/-- Work on an order under its lease, `busy` when another worker holds it. -/
def leaseOr {α : Type} (orderId : String) (nowMs : Int) (busy : α) (work : Work α) : Engine α := do
  match ← acquire orderId nowMs with
  | none => return busy
  | some leased => do
    let (result, _) ← underLease leased work
    check result

/-- Apply a refund, or a lost dispute recorded earlier, to an order. -/
def reverseOrder (orderId : String) (kind : ReverseKind) (refund : Option RefundFacts)
    (nowMs : Int) : Engine ReverseOutcome := do
  if refund.any fun facts => facts.status != .succeeded then return .noOp
  else leaseOr orderId nowMs .busy (reverseAndClear kind refund nowMs)

/-- Apply a dispute as Stripe reports it now, read under the lease. -/
def reverseDispute (s : PaymentsSettings) (orderId disputeId : String) (nowMs : Int) :
    Engine ReverseOutcome :=
  leaseOr orderId nowMs .busy do
    let order ← Work.order
    let kind ← currentDisputeKind s order disputeId
    reverseLocked kind (some disputeId) none nowMs

/-- The sweep's check of an order that lists open disputes. -/
def recheckDisputes (s : PaymentsSettings) (orderId : String) (nowMs : Int) :
    Engine ReverseOutcome := do
  match ← acquire orderId nowMs with
  | none => return .busy
  | some leased => do
    let (result, after) ← underLease leased (recheckOpenDisputes s nowMs)
    check result
    if after.order.state ≠ leased.order.state ∨
        after.order.openDisputes ≠ leased.order.openDisputes then return .applied
    else return .noOp

/-- The sweep's step for a release that was decided but not finished. -/
def finishNumberRelease (orderId : String) (nowMs : Int) : Engine ReverseOutcome :=
  leaseOr orderId nowMs .busy do
    let outcome ← finishNumberReleaseLocked nowMs
    return outcome.getD .noOp

def markSettling (nowMs : Int) (o : PaymentOrder) : PaymentOrder :=
  { o with refundSettlingSince := some nowMs }

/-- A refund of the order's payment is still settling. -/
def markRefundSettling (orderId : String) (nowMs : Int) : Engine ReverseOutcome :=
  leaseOr orderId nowMs .busy do
    let order ← Work.order
    if order.state = .voided ∨ order.state = .refunded then return .noOp
    else do
      Work.onlyIf order.refundSettlingSince.isNone (Work.write (markSettling nowMs))
      return .recordedPending

/-- Every refund of the order's payment failed. -/
def clearRefundSettling (orderId : String) (nowMs : Int) : Engine ReverseOutcome :=
  leaseOr orderId nowMs .busy do
    let order ← Work.order
    Work.onlyIf order.refundSettlingSince.isSome (Work.write clearSettling)
    return .noOp

end SlogaBackend.Payments
