import SlogaBackend.Mls.SeatList

/-!
# Planning a seat-list write

`plan_seat_list_write` of `models/protected_channels/model.rs` and the pure
checks beside it. Both drivers read their state inside their atomicity
primitive, hand it to the planner and write the plan, so everything a seat-list
write may do is decided here.

The planner is cut along its own steps: the strict parse (`checkSubmission`),
the version rule (`versionRule`), the refusal of a list that still names a
server-removed user (`seatListRemovedUsers`), the claims and releases
(`reconcileSeats`), the slot check (`checkClaims`), the pending removals
(`pendingRemovalsFor`) and the handover append (`appendHandover`).
`planSeatListWrite_apply` says what an applied plan consists of; the drivers'
proofs use that statement and never unfold the planner.
-/

namespace SlogaBackend.Mls

open Checks

inductive SeatListWriteKind where
  | protect
  | put
  deriving DecidableEq

/-- Everything the planner reads. -/
structure SeatListWriteInput where
  kind : SeatListWriteKind
  channelId : String
  submission : SeatListSubmission
  stored : Option SeatList
  entitlement : Option ChannelEntitlement
  seats : List ChannelSeat
  textGroup : Option MlsGroup
  allowClaims : Bool
  now : Timestamp

structure SeatListWritePlan where
  row : SeatList
  seatRows : List ChannelSeat
  claimed : List String
  released : List String
  pendingAdded : List MlsPendingRemoval
  seatListAdSha256 : String
  deriving DecidableEq

/-- Planner verdict. -/
inductive SeatListWriteDecision where
  | unchanged (list : SeatList)
  | apply (plan : SeatListWritePlan)

def SeatListWritePlan.outcome (plan : SeatListWritePlan) : SeatListWriteOutcome where
  list := plan.row
  unchanged := false
  claimed := plan.claimed
  released := plan.released
  pendingRemovalsAdded := plan.pendingAdded.map (·.userId)

/-- Outcome for a decision whose writes, if any, have been committed. -/
def SeatListWriteDecision.outcome : SeatListWriteDecision → SeatListWriteOutcome
  | .unchanged list =>
    { list := list, unchanged := true, claimed := [], released := [], pendingRemovalsAdded := [] }
  | .apply plan => plan.outcome

/-! ## The users a list must not name -/

/-- The users `body` names whose seat the server released since the stored list
landed. -/
def seatListRemovedUsers (body : SeatListBody) (stored : Option SeatList)
    (seats : List ChannelSeat) : Result (List String) :=
  match stored with
  | none => .ok []
  | some stored => do
    let storedBody ← SeatListBody.parse stored.body
    return (body.seats.filter fun userId =>
        userId != body.signerUserId && storedBody.seats.contains userId).filter fun userId =>
      !seats.any fun seat => seat.userId == userId && seat.isActive

/-! ## The steps of the planner -/

variable (prim : Primitives)

/-- Step 1: strict parse; the route channel and the declared signer device must
match the signed body. -/
def checkSubmission (input : SeatListWriteInput) : Result SeatListBody := do
  let body ← SeatListBody.parse input.submission.body
  refuseIf (body.channelId ≠ input.channelId)
    (invalid "seat list channel_id does not match the channel")
  refuseIf (body.signerDeviceId ≠ input.submission.signerDeviceId)
    (invalid "signer_device_id does not match the seat list body")
  let _ ← decodeSignatureB64 prim input.submission.signature
  return body

/-- Step 4: the version rule. A byte-identical re-PUT answers the stored row at
once. -/
def versionRule (input : SeatListWriteInput) (body : SeatListBody) : Result (Option SeatList) :=
  match input.kind, input.stored with
  | .protect, some _ => .error (invalid "channel already has a seat list")
  | .protect, none => do
    refuseIf (body.version ≠ 1) (invalid "genesis seat list must be version 1")
    return none
  | .put, none => .error (invalid "channel has no seat list")
  | .put, some stored =>
    if body.version = stored.version ∧ input.submission.body = stored.body ∧
        input.submission.signature = stored.signature then
      .ok (some stored)
    else do
      refuseIf (some body.version ≠ checkedSuccI64 stored.version)
        (invalid "seat list version must be stored version + 1")
      return none

/-- The seat a listed user is missing: the row to write, and whether it takes a
new slot. A cooling seat is reactivated without consuming another slot; an
expired or a missing one is a new slot. -/
def claimSeat (channelId : String) (seats : List ChannelSeat) (now : Timestamp)
    (userId : String) : Option (ChannelSeat × Bool) :=
  match seats.find? fun seat => seat.userId == userId with
  | some seat => if seat.isActive then none else some (seat.reactivate now, !seat.isCooling now)
  | none =>
    some ({ id := ChannelSeat.compositeId channelId userId, channelId := channelId,
            userId := userId, seatedAt := now, releasedAt := none, cooldownUntil := none }, true)

/-- Release every seat of a list at `now`. -/
def releaseSeats (now : Timestamp) : List ChannelSeat → Result (List ChannelSeat)
  | [] => .ok []
  | seat :: rest => do
    let released ← seat.release now
    let others ← releaseSeats now rest
    return released :: others

/-- The claims of step 7, in the order of the desired users. -/
def seatClaims (channelId : String) (seats : List ChannelSeat) (now : Timestamp)
    (desired : List String) : List (ChannelSeat × Bool) :=
  desired.filterMap (claimSeat channelId seats now)

/-- The seats step 7 releases: active, and off the list. -/
def seatsToRelease (seats : List ChannelSeat) (desired : List String) : List ChannelSeat :=
  seats.filter fun seat => seat.isActive && !desired.contains seat.userId

/-- The growth flag, the entitlement and the slot cap, for a list that claims. -/
def checkClaims (input : SeatListWriteInput) (claims : List (ChannelSeat × Bool)) :
    Result Unit := do
  refuseIf (¬ input.allowClaims ∧ claims ≠ []) (.featureDisabled "protected_channels")
  if claims ≠ [] then
    let entitlement ← okOr (input.entitlement.filter (·.isActive)) .invalidOperation
    let newSlots := (claims.filter (·.2)).length
    refuseIf (0 < newSlots ∧
        entitlement.slotCap < channelSeatsUsed input.seats input.now + newSlots)
      (.seatCapReached entitlement.slotCap)
  else
    refuseIf (input.kind = .protect) .invalidOperation

/-- The users the stored list names. -/
def storedSeats : Option SeatList → Result (List String)
  | none => .ok []
  | some stored => (·.seats) <$> SeatListBody.parse stored.body

/-- The users a new list drops: the previous list's seats and the active seat
rows, less the new list. -/
def droppedUsers (input : SeatListWriteInput) (desired : List String) : Result (List String) := do
  let active := (input.seats.filter (·.isActive)).map (·.userId)
  let listed ← storedSeats input.stored
  return (btreeSet (active ++ listed)).filter fun userId => !desired.contains userId

/-- Each dropped user with a device in the open Text group and no entry yet
becomes a pending removal. -/
def pendingRemovalsFor (input : SeatListWriteInput) (desired : List String) :
    Result (List MlsPendingRemoval) :=
  match input.textGroup with
  | none => .ok []
  | some group => do
    let dropped ← droppedUsers input desired
    return (dropped.filter fun userId =>
        (group.members.any fun member => member.userId == userId) &&
          !group.hasPendingRemoval userId).map fun userId =>
      { userId := userId, createdAt := input.now }

/-- The handover statement of a submission, if any, as the end of the chain. -/
def submittedHandover : Option SignedHandover → Result (List SignedHandover)
  | none => .ok []
  | some handover => do
    refuseIf (maxHandoverBodyLen < handover.body.utf8ByteSize) (invalid "handover body too long")
    let _ ← decodeSignatureB64 prim handover.signature
    return [handover]

/-- Step 8: the handover append. -/
def appendHandover (input : SeatListWriteInput) : Result (List SignedHandover) := do
  let appended ← submittedHandover prim input.submission.handover
  let handovers := (input.stored.map (·.handovers)).getD [] ++ appended
  refuseIf (maxSeatListHandovers < handovers.length) (invalid "handover chain too long")
  return handovers

/-- The plan of a list the version rule lets through. -/
def planApply (input : SeatListWriteInput) (body : SeatListBody) : Result SeatListWritePlan := do
  let removed ← seatListRemovedUsers body input.stored input.seats
  refuseIf (removed ≠ []) (.seatListNamesRemovedUsers removed)
  -- step 5b: the signer device holds a leaf of the open Text group (genesis exempt)
  refuseIf (input.kind = .put ∧
      input.textGroup.any fun group => !group.hasMember body.signerUserId body.signerDeviceId)
    (invalid "seat list signer device holds no leaf")
  let desired := btreeSet body.seats
  let claims := seatClaims input.channelId input.seats input.now desired
  let releasedRows ← releaseSeats input.now (seatsToRelease input.seats desired)
  checkClaims input claims
  let pendingAdded ← pendingRemovalsFor input desired
  let handovers ← appendHandover prim input
  let row : SeatList := {
    id := input.channelId
    version := body.version
    body := input.submission.body
    signerUserId := body.signerUserId
    signerDeviceId := body.signerDeviceId
    signature := input.submission.signature
    handovers := handovers
    updatedAt := input.now }
  let sha256 ← row.commitAdSha256 prim
  return {
    row := row
    seatRows := (claims.map (·.1) ++ releasedRows).insertionSort (fun a b => a.id ≤ b.id)
    claimed := (claims.map (·.1.userId)).insertionSort (· ≤ ·)
    released := (releasedRows.map (·.userId)).insertionSort (· ≤ ·)
    pendingAdded := pendingAdded
    seatListAdSha256 := sha256 }

/-- Plan a protect (genesis) or a seat PUT. -/
def planSeatListWrite (input : SeatListWriteInput) : Result SeatListWriteDecision := do
  let body ← checkSubmission prim input
  match ← versionRule input body with
  | some stored => return .unchanged stored
  | none => return .apply (← planApply prim input body)

/-! ## Group creation and protection checks -/

/-- Validate a Text group create request against the newest seat list and fill
in the server-owned Text fields. -/
def prepareTextGroup (group : MlsGroup) (list : SeatList) : Result MlsGroup := do
  refuseIf (¬ group.generation.any fun generation => generation ≤ maxTextGroupGeneration)
    (invalid "text group generation")
  refuseIf (group.open_ = false ∨ group.currentEpoch ≠ 0 ∨ group.closedAt.isSome ∨
      group.supersededBy.isSome)
    (invalid "text group must be created open at epoch 0")
  refuseIf (group.members ≠ [group.createdBy])
    (invalid "text group must start with its creator only")
  refuseIf (group.createdBy.userId ≠ list.signerUserId ∨
      group.createdBy.deviceId ≠ list.signerDeviceId)
    (invalid "only the current seat list signer device may create")
  let sha256 ← list.commitAdSha256 prim
  return { group with
    kind := .text
    seatListAdSha256 := some sha256
    pendingRemovals := []
    memberAdded := [{
      userId := group.createdBy.userId
      deviceId := group.createdBy.deviceId
      epoch := 0
      at_ := group.createdAt }] }

/-- Successor rule: the superseded group is a Text group of the same channel, and
the new generation is its generation + 1. -/
def checkTextSuccessor (superseded successor : MlsGroup) : Result Unit := do
  refuseIf (superseded.channelId ≠ successor.channelId)
    (invalid "superseded group belongs to another channel")
  refuseIf (superseded.kind ≠ .text) (invalid "superseded group is not a text group")
  let expected := superseded.generation.bind checkedSuccU32
  refuseIf (expected = none ∨ expected ≠ successor.generation)
    (invalid "successor generation must be superseded generation + 1")

/-- A first Text group (no `supersedes`) is generation 0. -/
def checkTextFirstGeneration (group : MlsGroup) : Result Unit :=
  refuseIf (group.generation ≠ some 0) (invalid "first text group must be generation 0")

/-- Whether a protect is the byte-identical retry of a protect that landed. -/
def isGenesisReprotect (submission : SeatListSubmission) (stored : SeatList) : Bool :=
  stored.version == 1 && submission.body == stored.body &&
    submission.signature == stored.signature &&
    submission.signerDeviceId == stored.signerDeviceId && submission.handover.isNone

def seatListChannelServer : Channel → Option String
  | .textChannel server _ _ _ _ => some server
  | _ => none

/-- Protect preconditions: a server text channel, not yet protected, no voice, not
an announcement channel, no messages. -/
def checkChannelProtectable : Option Channel → Result Unit
  | none => .error .notFound
  | some (.textChannel _ none none announcement false) =>
    if announcement ≠ some true then .ok () else .error .invalidOperation
  | some _ => .error .invalidOperation

def contextTextGroup : String := "sloga-text-group-v1"

/-- Whether a Text create's id really derives from its channel and generation. -/
def isDerivedTextGroupId (group : MlsGroup) : Bool :=
  match group.generation with
  | none => false
  | some generation =>
    toHex (prim.sha256 (asBytes
      (contextTextGroup ++ "\n" ++ group.channelId ++ "\n" ++ generation.repr))) == group.id

end SlogaBackend.Mls
