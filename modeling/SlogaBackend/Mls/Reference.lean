import SlogaBackend.Mls.Seats
import SlogaBackend.Mls.TextCommitPlan
import SlogaBackend.Lib.Runs

/-!
# The Reference driver

The in-memory store and the operations of `models/protected_channels/ops/reference.rs`
and `models/mls/ops/reference.rs` on it. Every operation holds all its locks for
its whole length, so each is one atomic step: a function from the store to a
refusal or to the next store with an answer. A refused operation has written
nothing (`exec`).

The other collections an operation reads --- channels, messages, servers,
members, identities, queued envelopes --- are written by the rest of the backend.
`Op.environment` puts any contents there at any point of a run, so a statement
about runs makes no assumption on what the rest of the backend does to them.

A search over the rows of a map returns its first match in storage order, where
the source leaves the order open. Every such search is for a row that the store's
invariant makes unique.
-/

namespace SlogaBackend.Mls

open Checks

/-! ## The store -/

/-- The collections the protected-channel and MLS operations use. -/
structure ReferenceDb where
  channels : Table String Channel
  messages : Table String Message
  channelEntitlements : Table String ChannelEntitlement
  servers : Table String Server
  serverMembers : Table MemberCompositeKey Unit
  channelSeatLists : Table String SeatList
  channelSeats : Table String ChannelSeat
  mlsGroups : Table String MlsGroup
  mlsCommits : Table String MlsCommit
  mlsJoinIntents : Table String MlsJoinIntent
  e2eeIdentities : Table String Unit
  e2eeQueue : Table String E2EEEnvelope
  deriving DecidableEq

/-- The collections the rest of the backend writes. -/
structure Environment where
  channels : Table String Channel
  messages : Table String Message
  servers : Table String Server
  serverMembers : Table MemberCompositeKey Unit
  e2eeIdentities : Table String Unit
  e2eeQueue : Table String E2EEEnvelope

def isOpenTextGroupOf (channelId : String) (group : MlsGroup) : Bool :=
  group.channelId == channelId && group.open_ && group.kind == .text

def isOpenGroupOf (channelId : String) (kind : MlsGroupKind) (group : MlsGroup) : Bool :=
  group.channelId == channelId && group.kind == kind && group.open_

namespace ReferenceDb

/-- The store before anything was written. -/
def empty : ReferenceDb := ⟨∅, ∅, ∅, ∅, ∅, ∅, ∅, ∅, ∅, ∅, ∅, ∅⟩

/-- Replace the collections the rest of the backend writes. -/
def withEnvironment (db : ReferenceDb) (env : Environment) : ReferenceDb :=
  { db with
    channels := env.channels
    messages := env.messages
    servers := env.servers
    serverMembers := env.serverMembers
    e2eeIdentities := env.e2eeIdentities
    e2eeQueue := env.e2eeQueue }

/-! ## Reads -/

def fetchChannelEntitlement (db : ReferenceDb) (channelId : String) : Option ChannelEntitlement :=
  db.channelEntitlements.values.find? fun entitlement => entitlement.channelId == channelId

def openTextGroup (db : ReferenceDb) (channelId : String) : Option MlsGroup :=
  db.mlsGroups.values.find? (isOpenTextGroupOf channelId)

def fetchChannelSeatsForUser (db : ReferenceDb) (userId : String) : List ChannelSeat :=
  (db.channelSeats.values.filter fun seat => seat.userId == userId).insertionSort
    (fun a b => a.id ≤ b.id)

/-- The route's check that a user holds an active seat of the channel. -/
def requireSeated (db : ReferenceDb) (channelId userId : String) : Result Unit :=
  refuseIf ((db.fetchChannelSeatsForUser userId).any (fun seat =>
    seat.channelId == channelId && seat.userId == userId && seat.isActive) = false) .notSeated

/-! ## Entitlements -/

/-- What a grant stores: a later grant changes the caps and the granter only. -/
def storedEntitlement (entitlement : ChannelEntitlement) :
    Option ChannelEntitlement → ChannelEntitlement
  | some existing =>
    { existing with
      slotCap := entitlement.slotCap
      deviceCap := entitlement.deviceCap
      grantedBy := entitlement.grantedBy }
  | none => entitlement

def upsertChannelEntitlement (db : ReferenceDb) (entitlement : ChannelEntitlement)
    (now : Timestamp) : Result (ReferenceDb × ChannelEntitlement) := do
  refuseIf (¬ (1 ≤ entitlement.slotCap ∧ entitlement.slotCap ≤ maxChannelSlotCap))
    (invalid "slot_cap must be 1..=100")
  refuseIf (entitlement.slotCap <
      channelSeatsUsed (seatsOf db.channelSeats entitlement.channelId) now)
    (.seatCapReached entitlement.slotCap)
  let stored := storedEntitlement entitlement (db.fetchChannelEntitlement entitlement.channelId)
  return ({ db with channelEntitlements := db.channelEntitlements.insert stored.id stored }, stored)

/-! ## Seat lists -/

variable (prim : Primitives)

def seatListWriteInput (db : ReferenceDb) (kind : SeatListWriteKind) (channelId : String)
    (submission : SeatListSubmission) (allowClaims : Bool) (now : Timestamp) :
    SeatListWriteInput where
  kind := kind
  channelId := channelId
  submission := submission
  stored := db.channelSeatLists.get channelId
  entitlement := db.fetchChannelEntitlement channelId
  seats := seatsOf db.channelSeats channelId
  textGroup := db.openTextGroup channelId
  allowClaims := allowClaims
  now := now

/-- Every newly seated user is a member of the server. -/
def checkMembers (db : ReferenceDb) (serverId : String) : SeatListWriteDecision → Result Unit
  | .unchanged _ => .ok ()
  | .apply plan =>
    refuseIf (plan.claimed.any (fun userId => (db.serverMembers.get ⟨serverId, userId⟩).isNone))
      (failed "seated user is not a member of the server")

/-- The group after a list change: bound to the new list, the dropped users pending. -/
def bindList (plan : SeatListWritePlan) (group : MlsGroup) : MlsGroup :=
  { group with
    seatListAdSha256 := some plan.seatListAdSha256
    pendingRemovals := group.pendingRemovals ++ plan.pendingAdded }

/-- Rewrite the group at an id, if one is given. -/
def modifyGroup (groups : Table String MlsGroup) (f : MlsGroup → MlsGroup) :
    Option String → Table String MlsGroup
  | none => groups
  | some id => groups.modify id f

/-- Apply a seat-list plan to the store. -/
def applyDecision (db : ReferenceDb) (textGroupId : Option String) :
    SeatListWriteDecision → ReferenceDb
  | .unchanged _ => db
  | .apply plan =>
    { db with
      channelSeatLists := db.channelSeatLists.insert plan.row.id plan.row
      channelSeats := db.channelSeats.insertAll (·.id) plan.seatRows
      mlsGroups := modifyGroup db.mlsGroups (bindList plan) textGroupId }

/-- Whether the server, if any, is owned by the user. -/
def ownedBy (db : ReferenceDb) (serverId : Option String) (userId : String) : Bool :=
  (serverId.bind db.servers.get).any fun server => server.owner == userId

/-- Whether a channel is a thread of another. -/
def isThreadOf (channelId : String) : Channel → Bool
  | .thread parent => parent == channelId
  | _ => false

def setProtected : Channel → Channel
  | .textChannel server lastMessageId voice announcement _ =>
    .textChannel server lastMessageId voice announcement true
  | channel => channel

/-- A protect that is not the retry of one that landed. -/
def protectFirst (db : ReferenceDb) (serverId : Option String) (channelId : String)
    (submission : SeatListSubmission) (now : Timestamp) :
    Result (ReferenceDb × SeatListWriteOutcome) := do
  checkChannelProtectable (db.channels.get channelId)
  let body ← SeatListBody.parse submission.body
  refuseIf (db.ownedBy serverId body.signerUserId = false) .notOwner
  let serverId ← okOr serverId .invalidOperation
  refuseIf (db.channels.values.any (isThreadOf channelId)) .invalidOperation
  refuseIf (db.messages.values.any fun message => message.channel == channelId) .invalidOperation
  refuseIf ((db.fetchChannelEntitlement channelId).any (fun entitlement =>
    entitlement.isActive && entitlement.serverId == serverId) = false) .invalidOperation
  let decision ← planSeatListWrite prim
    (db.seatListWriteInput .protect channelId submission true now)
  db.checkMembers serverId decision
  let applied := db.applyDecision ((db.openTextGroup channelId).map (·.id)) decision
  return ({ applied with channels := applied.channels.modify channelId setProtected },
    decision.outcome)

/-- Protect a channel with its genesis list. The byte-identical retry of a protect
that landed answers the stored list and writes nothing. -/
def protectChannel (db : ReferenceDb) (channelId : String) (submission : SeatListSubmission)
    (now : Timestamp) : Result (ReferenceDb × SeatListWriteOutcome) :=
  let serverId := (db.channels.get channelId).bind seatListChannelServer
  match (db.channelSeatLists.get channelId).filter fun stored =>
    isGenesisReprotect submission stored && db.ownedBy serverId stored.signerUserId with
  | some stored => .ok (db, (SeatListWriteDecision.unchanged stored).outcome)
  | none => db.protectFirst prim serverId channelId submission now

/-- Replace a protected channel's list. -/
def putSeatList (db : ReferenceDb) (channelId : String) (submission : SeatListSubmission)
    (allowClaims : Bool) (now : Timestamp) : Result (ReferenceDb × SeatListWriteOutcome) := do
  let decision ← planSeatListWrite prim
    (db.seatListWriteInput .put channelId submission allowClaims now)
  let serverId := ((db.fetchChannelEntitlement channelId).map (·.serverId)).getD ""
  db.checkMembers serverId decision
  return (db.applyDecision ((db.openTextGroup channelId).map (·.id)) decision, decision.outcome)

/-! ## Text groups -/

/-- The conflict with an open group. -/
def conflictWith (open_ : MlsGroup) : MlsGroupCreateOutcome := .conflict open_.id open_.channelId

/-- The generation and successor checks of a Text create; an open group other than
the superseded one is a conflict. -/
def textCreateConflict (db : ReferenceDb) (group : MlsGroup) :
    Option String → Result (Option MlsGroupCreateOutcome)
  | some supersededId => do
    let superseded ← okOr (db.mlsGroups.get supersededId) .notFound
    checkTextSuccessor superseded group
    return ((db.openTextGroup group.channelId).filter fun open_ =>
      open_.id != supersededId).map conflictWith
  | none => do
    checkTextFirstGeneration group
    return (db.openTextGroup group.channelId).map conflictWith

/-- Whether a row at the id of a Text create is a Call squat to evict; any other row
refuses the create. -/
def squatAt (db : ReferenceDb) (prepared : MlsGroup) : Result Bool :=
  match db.mlsGroups.get prepared.id with
  | none => .ok false
  | some taken =>
    if taken.kind = .call ∧ isDerivedTextGroupId prim prepared = true then .ok true
    else .error .invalidOperation

/-- Remove a Call squat with its commits, join intents and queued envelopes. -/
def evictSquat (db : ReferenceDb) (id : String) : ReferenceDb :=
  { db with
    mlsGroups := db.mlsGroups.erase id
    mlsCommits := db.mlsCommits.retain fun _ commit => commit.groupId != id
    mlsJoinIntents := db.mlsJoinIntents.retain fun _ intent => intent.groupId != id
    e2eeQueue := db.e2eeQueue.retain fun _ envelope => envelope.groupId != some id }

/-- A group closed in favour of a successor. -/
def supersede (successor superseded : MlsGroup) : MlsGroup :=
  { superseded with
    open_ := false
    closedAt := some successor.createdAt
    supersededBy := some successor.id }

/-- The write half of a Text create. -/
def insertTextGroup (db : ReferenceDb) (group prepared : MlsGroup) (supersedes : Option String) :
    ReferenceDb :=
  { db with
    mlsGroups := (modifyGroup db.mlsGroups (fun superseded =>
      if superseded.open_ then supersede group superseded else superseded) supersedes).insert
      prepared.id prepared }

def createTextMlsGroup (db : ReferenceDb) (group : MlsGroup) (supersedes : Option String) :
    Result (ReferenceDb × MlsGroupCreateOutcome) := do
  let list ← okOr (db.channelSeatLists.get group.channelId) (failed "channel has no seat list")
  match ← db.textCreateConflict group supersedes with
  | some conflict => return (db, conflict)
  | none =>
    let prepared ← prepareTextGroup prim group list
    let squat ← db.squatAt prim prepared
    let cleared := if squat then db.evictSquat prepared.id else db
    return (cleared.insertTextGroup group prepared supersedes, .created)

/-! ## Releases and deletion -/

/-- The channels a release covers: all of them, or those entitled to one server. -/
def inScope (db : ReferenceDb) (serverId : Option String) (channelId : String) : Bool :=
  match serverId with
  | none => true
  | some serverId => db.channelEntitlements.values.any fun entitlement =>
    entitlement.serverId == serverId && entitlement.channelId == channelId

/-- Whether a release frees a seat row. -/
def releasesSeat (db : ReferenceDb) (userId : String) (serverId : Option String)
    (seat : ChannelSeat) : Bool :=
  seat.userId == userId && seat.isActive && db.inScope serverId seat.channelId

/-- Whether a release leaves a pending removal on a group. -/
def pendsRemoval (db : ReferenceDb) (userId : String) (serverId : Option String)
    (group : MlsGroup) : Bool :=
  group.open_ && group.kind == .text && db.inScope serverId group.channelId &&
    (group.members.any fun member => member.userId == userId) && !group.hasPendingRemoval userId

def releasedSeat (now cooldownUntil : Timestamp) (seat : ChannelSeat) : ChannelSeat :=
  { seat with releasedAt := some now, cooldownUntil := some cooldownUntil }

/-- A group with one more pending removal. -/
def pushPending (userId : String) (now : Timestamp) (group : MlsGroup) : MlsGroup :=
  { group with pendingRemovals := group.pendingRemovals ++ [⟨userId, now⟩] }

/-- Release a user's seats, everywhere or on one server's channels, and make the user
a pending removal of the Text groups there. Answers the affected channels. -/
def releaseChannelSeatsForUser (db : ReferenceDb) (userId : String) (serverId : Option String)
    (now : Timestamp) : Result (ReferenceDb × List String) := do
  let cooldownUntil ← seatCooldownUntil now
  return ({ db with
      channelSeats := db.channelSeats.mapValues fun seat =>
        if db.releasesSeat userId serverId seat then releasedSeat now cooldownUntil seat else seat
      mlsGroups := db.mlsGroups.mapValues fun group =>
        if db.pendsRemoval userId serverId group then pushPending userId now group else group },
    btreeSet (((db.channelSeats.values.filter (db.releasesSeat userId serverId)).map
        (·.channelId)) ++
      ((db.mlsGroups.values.filter (db.pendsRemoval userId serverId)).map (·.channelId))))

def textGroupIds (db : ReferenceDb) (channelId : String) : List String :=
  (db.mlsGroups.values.filter fun group =>
    group.channelId == channelId && group.kind == .text).map (·.id)

/-- Remove everything a protected channel stored. -/
def deleteProtectedChannelData (db : ReferenceDb) (channelId : String) : ReferenceDb :=
  { db with
    channelEntitlements := db.channelEntitlements.retain fun _ entitlement =>
      entitlement.channelId != channelId
    channelSeatLists := db.channelSeatLists.erase channelId
    channelSeats := db.channelSeats.retain fun _ seat => seat.channelId != channelId
    mlsGroups := db.mlsGroups.retain fun id _ => !(db.textGroupIds channelId).contains id
    mlsCommits := db.mlsCommits.retain fun _ commit =>
      !(db.textGroupIds channelId).contains commit.groupId
    mlsJoinIntents := db.mlsJoinIntents.retain fun _ intent =>
      !(db.textGroupIds channelId).contains intent.groupId }

/-! ## Call groups -/

/-- The checks on a superseded Call group: the id of an open one to close, or `none`
when the create goes on without one. -/
def callSuperseded (db : ReferenceDb) (group : MlsGroup) : Option String → Result (Option String)
  | none => .ok none
  | some supersededId =>
    match db.mlsGroups.get supersededId with
    | none => .error .notFound
    | some old =>
      if old.channelId ≠ group.channelId then
        .error (failed "superseded group belongs to another channel")
      else if old.kind ≠ group.kind then .error (failed "superseded group is of another kind")
      else if old.open_ = false then .ok none
      else if (db.mlsGroups.get group.id).isSome then .error .invalidOperation
      else .ok (some supersededId)

def createFreshCall (db : ReferenceDb) (group : MlsGroup) :
    Result (ReferenceDb × MlsGroupCreateOutcome) :=
  match db.mlsGroups.values.find? (isOpenGroupOf group.channelId group.kind) with
  | some open_ => .ok (db, conflictWith open_)
  | none => do
    refuseIf ((db.mlsGroups.get group.id).isSome) .invalidOperation
    return ({ db with mlsGroups := db.mlsGroups.insert group.id group }, .created)

def createMlsGroup (db : ReferenceDb) (group : MlsGroup) (supersedes : Option String) :
    Result (ReferenceDb × MlsGroupCreateOutcome) := do
  refuseIf (group.kind ≠ .call) .invalidOperation
  match ← db.callSuperseded group supersedes with
  | some supersededId =>
    return ({ db with
      mlsGroups := (db.mlsGroups.modify supersededId (supersede group)).insert group.id group },
      .created)
  | none => db.createFreshCall group

/-- Close a Call group; `now` is the clock read inside. -/
def closeMlsGroup (db : ReferenceDb) (groupId : String) (now : Timestamp) :
    Result (ReferenceDb × Bool) := do
  let group ← okOr (db.mlsGroups.get groupId) .notFound
  refuseIf (group.kind ≠ .call) .invalidOperation
  if group.open_ = false then
    return (db, false)
  else
    return ({ db with
      mlsGroups := db.mlsGroups.insert groupId
        { group with open_ := false, closedAt := some now } }, true)

/-- No added user has a device in the roster. -/
def checkCallAdds (group : MlsGroup) : List MlsMemberDevice → Result Unit
  | [] => .ok ()
  | added :: rest =>
    match group.memberDeviceOf added.userId with
    | some existing =>
      .error (failed (if existing.deviceId = added.deviceId then "added device is already a member"
        else "user already has a live leaf from another device"))
    | none => checkCallAdds group rest

/-- The roster ceiling, counting real removals only. -/
def checkCallCeiling (group : MlsGroup) (commit : MlsCommit) : Result Unit := do
  let realRemovals := (commit.removed.filter fun removed =>
    group.hasMember removed.userId removed.deviceId).length
  refuseIf (group.members.length + commit.added.length < realRemovals) .arithmeticOverflow
  refuseIf (maxMlsGroupMembers < group.members.length + commit.added.length - realRemovals)
    (failed "group is at the E2EE roster ceiling")

def applyCallCommit (group : MlsGroup) (commit : MlsCommit) : MlsGroup :=
  { group with
    currentEpoch := commit.epoch
    members := applyDelta group.members commit.added commit.removed }

def admittedIntentIds (commit : MlsCommit) : List String :=
  commit.added.map fun added => MlsJoinIntent.compositeId commit.groupId added.userId added.deviceId

/-- A Call commit past its stale-epoch answer: the checks, then the first writer of
the epoch's row wins. -/
def insertNextCommit (db : ReferenceDb) (group : MlsGroup) (commit : MlsCommit) :
    Result (ReferenceDb × MlsCommitOutcome) := do
  refuseIf (commit.epoch ≠ group.currentEpoch + 1)
    (failed "commit epoch must be exactly current_epoch + 1")
  checkCallAdds group commit.added
  checkCallCeiling group commit
  match db.mlsCommits.get (MlsCommit.compositeId commit.groupId commit.epoch) with
  | some winning => return (db, .lost winning)
  | none =>
    return ({ db with
      mlsCommits := db.mlsCommits.insert (MlsCommit.compositeId commit.groupId commit.epoch) commit
      mlsGroups := db.mlsGroups.insert commit.groupId (applyCallCommit group commit)
      mlsJoinIntents := db.mlsJoinIntents.eraseAll (admittedIntentIds commit) }, .won)

/-- Submit a Call commit. -/
def insertMlsCommit (db : ReferenceDb) (commit : MlsCommit) :
    Result (ReferenceDb × MlsCommitOutcome) := do
  let group ← okOr (db.mlsGroups.get commit.groupId) .notFound
  refuseIf (group.kind ≠ .call) .invalidOperation
  refuseIf (group.open_ = false) (failed "group is closed")
  refuseIf (group.hasMember commit.committer.userId commit.committer.deviceId = false) .notFound
  if commit.epoch ≤ group.currentEpoch then
    let winning ← okOr (db.mlsCommits.get (MlsCommit.compositeId commit.groupId commit.epoch))
      .notFound
    return (db, .lost winning)
  else db.insertNextCommit group commit

/-! ## Text commits -/

def textCommitKey (id : String) : String := "text:" ++ id

def storedIntentsFor (db : ReferenceDb) (group : MlsGroup) (removed : List MlsMemberDevice) :
    List MlsJoinIntent :=
  removed.filterMap fun device =>
    db.mlsJoinIntents.get (MlsJoinIntent.compositeId group.id device.userId device.deviceId)

/-- The identities of the removed devices that are gone. -/
def revokedIdentitiesFor (db : ReferenceDb) (removed : List MlsMemberDevice) : List String :=
  (removed.map fun device => identityCompositeId device.userId device.deviceId).filter
    fun id => (db.e2eeIdentities.get id).isNone

def activeSeatUsersFor (db : ReferenceDb) (channelId : String) (added : List MlsMemberDevice) :
    List String :=
  (added.filter fun device =>
    (db.channelSeats.get (ChannelSeat.compositeId channelId device.userId)).any
      (·.isActive)).map (·.userId)

/-- The group after an accepted Text commit. -/
def applyTextCommit (group : MlsGroup) (commit : MlsCommit) (plan : MlsTextCommitPlan) : MlsGroup :=
  { group with
    currentEpoch := commit.epoch
    members := plan.members
    memberAdded := plan.memberAdded
    pendingRemovals := group.pendingRemovals.filter fun pending =>
      !plan.clearedPending.contains pending.userId }

/-- Submit a Text commit. A Text-marked row of the epoch wins before any check. -/
def insertMlsTextCommit (db : ReferenceDb) (commit : MlsCommit) (adSha256 : String)
    (entitlementDeviceCap : Nat) : Result (ReferenceDb × MlsCommitOutcome) :=
  let id := MlsCommit.compositeId commit.groupId commit.epoch
  match db.mlsCommits.get (textCommitKey id) with
  | some winning => .ok (db, .lost winning)
  | none => do
    let group ← okOr (db.mlsGroups.get commit.groupId) .notFound
    let plan ← planMlsTextCommit group commit adSha256 (db.channelSeatLists.get group.channelId)
      entitlementDeviceCap (db.storedIntentsFor group commit.removed)
      (db.revokedIdentitiesFor commit.removed)
      (db.activeSeatUsersFor group.channelId commit.added)
    return ({ db with
      mlsCommits := (db.mlsCommits.erase id).insert (textCommitKey id) plan.stored
      mlsGroups := db.mlsGroups.insert commit.groupId (applyTextCommit group commit plan)
      mlsJoinIntents := db.mlsJoinIntents.eraseAll plan.consumedIntentIds }, .won)

/-- The Text-marked commits of a group from an epoch on. -/
def fetchMlsTextCommitsFrom (db : ReferenceDb) (groupId : String) (fromEpoch limit : Int) :
    List MlsCommit :=
  (((db.mlsCommits.entries.filter fun entry =>
      decide ("text:".toList <+: entry.1.toList) && entry.2.groupId == groupId &&
        decide (fromEpoch ≤ entry.2.epoch)).map (·.2)).insertionSort
    fun a b => a.epoch ≤ b.epoch).take limit.toNat

/-! ## Intents, sweep and prune -/

/-- Store a join intent; answers the one it replaced. -/
def upsertMlsJoinIntent (db : ReferenceDb) (intent : MlsJoinIntent) :
    ReferenceDb × Option MlsJoinIntent :=
  ({ db with mlsJoinIntents := db.mlsJoinIntents.insert intent.id intent },
    db.mlsJoinIntents.get intent.id)

/-- Whether the sweep removes a group: Call groups only. -/
def isSwept (closedThreshold createdThreshold : Timestamp) (group : MlsGroup) : Bool :=
  group.kind == .call && (group.closedAt.any (fun closedAt => decide (closedAt < closedThreshold)) ||
    decide (group.createdAt < createdThreshold))

def sweptIds (db : ReferenceDb) (closedThreshold createdThreshold : Timestamp) : List String :=
  (db.mlsGroups.values.filter (isSwept closedThreshold createdThreshold)).map (·.id)

/-- Remove old Call groups with their commits and intents. -/
def sweepMlsGroups (db : ReferenceDb) (closedThreshold createdThreshold : Timestamp) :
    ReferenceDb × Nat :=
  let swept := db.sweptIds closedThreshold createdThreshold
  ({ db with
    mlsGroups := db.mlsGroups.eraseAll swept
    mlsCommits := db.mlsCommits.retain fun _ commit => !swept.contains commit.groupId
    mlsJoinIntents := db.mlsJoinIntents.retain fun _ intent => !swept.contains intent.groupId },
    swept.length)

/-- The commits the prune keeps: those of no Text group, and the young ones. -/
def keepsCommit (db : ReferenceDb) (olderThan : Timestamp) (commit : MlsCommit) : Bool :=
  !((db.mlsGroups.values.any fun group => group.kind == .text && group.id == commit.groupId) &&
    decide (commit.createdAt < olderThan))

/-- Remove old commits of Text groups. -/
def pruneMlsTextCommits (db : ReferenceDb) (olderThan : Timestamp) : ReferenceDb × Nat :=
  let kept := db.mlsCommits.retain fun _ commit => db.keepsCommit olderThan commit
  ({ db with mlsCommits := kept }, db.mlsCommits.values.length - kept.values.length)

end ReferenceDb

/-! ## The driver as a machine -/

/-- One call of the driver, or a step of the rest of the backend. -/
inductive Op where
  | upsertChannelEntitlement (entitlement : ChannelEntitlement) (now : Timestamp)
  | protectChannel (channelId : String) (submission : SeatListSubmission) (now : Timestamp)
  | putSeatList (channelId : String) (submission : SeatListSubmission) (allowClaims : Bool)
      (now : Timestamp)
  | createTextMlsGroup (group : MlsGroup) (supersedes : Option String)
  | releaseChannelSeatsForUser (userId : String) (serverId : Option String) (now : Timestamp)
  | deleteProtectedChannelData (channelId : String)
  | createMlsGroup (group : MlsGroup) (supersedes : Option String)
  | closeMlsGroup (groupId : String) (now : Timestamp)
  | insertMlsCommit (commit : MlsCommit)
  | insertMlsTextCommit (commit : MlsCommit) (adSha256 : String) (entitlementDeviceCap : Nat)
  | upsertMlsJoinIntent (intent : MlsJoinIntent)
  | sweepMlsGroups (closedThreshold createdThreshold : Timestamp)
  | pruneMlsTextCommits (olderThan : Timestamp)
  | environment (env : Environment)

/-- The answers of the operations. -/
inductive Response where
  | entitlement (stored : ChannelEntitlement)
  | seatList (outcome : SeatListWriteOutcome)
  | group (outcome : MlsGroupCreateOutcome)
  | channels (affected : List String)
  | closed (changed : Bool)
  | commit (outcome : MlsCommitOutcome)
  | intent (replaced : Option MlsJoinIntent)
  | count (rows : Nat)
  | done
  deriving DecidableEq

variable (prim : Primitives)

/-- An operation's next store and answer, or its refusal. -/
def perform (db : ReferenceDb) : Op → Result (ReferenceDb × Response)
  | .upsertChannelEntitlement entitlement now =>
    (Prod.map id .entitlement) <$> db.upsertChannelEntitlement entitlement now
  | .protectChannel channelId submission now =>
    (Prod.map id .seatList) <$> db.protectChannel prim channelId submission now
  | .putSeatList channelId submission allowClaims now =>
    (Prod.map id .seatList) <$> db.putSeatList prim channelId submission allowClaims now
  | .createTextMlsGroup group supersedes =>
    (Prod.map id .group) <$> db.createTextMlsGroup prim group supersedes
  | .releaseChannelSeatsForUser userId serverId now =>
    (Prod.map id .channels) <$> db.releaseChannelSeatsForUser userId serverId now
  | .deleteProtectedChannelData channelId => .ok (db.deleteProtectedChannelData channelId, .done)
  | .createMlsGroup group supersedes => (Prod.map id .group) <$> db.createMlsGroup group supersedes
  | .closeMlsGroup groupId now => (Prod.map id .closed) <$> db.closeMlsGroup groupId now
  | .insertMlsCommit commit => (Prod.map id .commit) <$> db.insertMlsCommit commit
  | .insertMlsTextCommit commit adSha256 entitlementDeviceCap =>
    (Prod.map id .commit) <$> db.insertMlsTextCommit commit adSha256 entitlementDeviceCap
  | .upsertMlsJoinIntent intent => .ok (Prod.map id .intent (db.upsertMlsJoinIntent intent))
  | .sweepMlsGroups closedThreshold createdThreshold =>
    .ok (Prod.map id .count (db.sweepMlsGroups closedThreshold createdThreshold))
  | .pruneMlsTextCommits olderThan => .ok (Prod.map id .count (db.pruneMlsTextCommits olderThan))
  | .environment env => .ok (db.withEnvironment env, .done)

/-- One step of the driver: a refused operation leaves the store as it was. -/
def exec (db : ReferenceDb) (op : Op) : ReferenceDb × Result Response :=
  match perform prim db op with
  | .ok (next, answer) => (next, .ok answer)
  | .error error => (db, .error error)

variable {db : ReferenceDb}

theorem exec_of_perform {next : ReferenceDb} {op : Op} {answer : Response}
    (h : perform prim db op = .ok (next, answer)) : exec prim db op = (next, .ok answer) := by
  unfold exec
  rw [h]

theorem ReferenceDb.protectChannel_of_none {channelId : String} {submission : SeatListSubmission}
    {now : Timestamp} (h : db.channelSeatLists.get channelId = none) :
    db.protectChannel prim channelId submission now =
      db.protectFirst prim ((db.channels.get channelId).bind seatListChannelServer) channelId
        submission now := by
  simp [protectChannel, h]

theorem ReferenceDb.insertMlsTextCommit_of_plan {commit : MlsCommit} {adSha256 : String} {cap : Nat}
    {group : MlsGroup} {plan : MlsTextCommitPlan} (hnew : db.mlsCommits.get
      (textCommitKey (MlsCommit.compositeId commit.groupId commit.epoch)) = none)
    (hgr : db.mlsGroups.get commit.groupId = some group)
    (hpl : planMlsTextCommit group commit adSha256 (db.channelSeatLists.get group.channelId) cap
      (db.storedIntentsFor group commit.removed) (db.revokedIdentitiesFor commit.removed)
      (db.activeSeatUsersFor group.channelId commit.added) = .ok plan) :
    db.insertMlsTextCommit commit adSha256 cap =
      .ok ({ db with
        mlsCommits :=
          (db.mlsCommits.erase (MlsCommit.compositeId commit.groupId commit.epoch)).insert
            (textCommitKey (MlsCommit.compositeId commit.groupId commit.epoch)) plan.stored
        mlsGroups := db.mlsGroups.insert commit.groupId (applyTextCommit group commit plan)
        mlsJoinIntents := db.mlsJoinIntents.eraseAll plan.consumedIntentIds }, .won) := by
  simp only [insertMlsTextCommit, hnew, bind_eq_ok]
  exact ⟨group, okOr_eq_ok.mpr hgr, plan, hpl, rfl⟩

/-! ## A small store

One channel, two users with one device each, and the calls that protect the channel,
open its Text group and admit the second device. -/

namespace Sample

def channelId : String := "01ARZ3NDEKTSV4RRFFQ69G5FAV"

def serverId : String := "01ARZ3NDEKTSV4RRFFQ69G5FA9"

/-- The owner's device, which signs the lists. -/
def owner : MlsMemberDevice := ⟨"01ARZ3NDEKTSV4RRFFQ69G5FA1", "00112233445566778899aabbccddeeff"⟩

/-- The second user's device. -/
def guest : MlsMemberDevice := ⟨"01ARZ3NDEKTSV4RRFFQ69G5FA2", "ffeeddccbbaa99887766554433221100"⟩

/-- The Text group id that derives from the channel and generation 0. -/
def groupId : String := "ec0965703b5ef776b0e00cd463c0cf9ef1cbb33fb04b7fd04a526094200e86ad"

/-- An unpadded base64 signature of 64 zero bytes. -/
def signature : String := String.ofList (List.replicate 86 'A')

/-- A list over the channel, signed by the owner's device. -/
def listBody (version seats : String) : String :=
  "sloga-seat-list-v1\nv:1\nchannel_id:" ++ channelId ++ "\nversion:" ++ version ++
    "\ndevice_cap:0\nissued_at:0\nsigner_user_id:" ++ owner.userId ++ "\nsigner_device_id:" ++
    owner.deviceId ++ "\nseats:" ++ seats

/-- The genesis list seats both users. -/
def genesis : SeatListSubmission :=
  ⟨listBody "1" (owner.userId ++ "," ++ guest.userId), signature, owner.deviceId, none⟩

/-- The commit AD hash of the genesis list. -/
def genesisSha256 : String := "9a0d32df4f838c5687211f06493290e59238c99fc6292c400a8d91aaae39b1ba"

/-- Base64 and SHA-256 on the inputs above: the one signature, and the commit ADs of
the two lists, which have different lengths. -/
def primitives : Primitives where
  decodeB64 := fun text => if text = signature then some (List.replicate 64 0) else none
  sha256 := fun bytes =>
    if bytes.length = 342 then
      [154, 13, 50, 223, 79, 131, 140, 86, 135, 33, 31, 6, 73, 50, 144, 229, 146, 56, 201, 159,
        198, 41, 44, 64, 10, 141, 145, 170, 174, 57, 177, 186]
    else
      [64, 237, 61, 115, 208, 172, 167, 170, 74, 80, 114, 222, 17, 234, 213, 85, 176, 231, 12, 205,
        146, 178, 90, 35, 24, 129, 156, 81, 130, 155, 232, 14]

/-- What the rest of the backend holds. -/
def environment : Environment where
  channels := (∅ : Table String Channel).insert channelId
    (.textChannel serverId none none none false)
  messages := ∅
  servers := (∅ : Table String Server).insert serverId ⟨owner.userId⟩
  serverMembers := ((∅ : Table MemberCompositeKey Unit).insert ⟨serverId, owner.userId⟩ ()).insert
    ⟨serverId, guest.userId⟩ ()
  e2eeIdentities := ((∅ : Table String Unit).insert
    (identityCompositeId owner.userId owner.deviceId) ()).insert
    (identityCompositeId guest.userId guest.deviceId) ()
  e2eeQueue := ∅

/-- The grant. -/
def entitlement : ChannelEntitlement :=
  ⟨"01ARZ3NDEKTSV4RRFFQ69G5FAE", channelId, serverId, .adminGrant, 2, none, .active, "admin", 0⟩

/-- The Text group as its creator submits it. -/
def group : MlsGroup where
  id := groupId
  channelId := channelId
  open_ := true
  createdBy := owner
  createdAt := seconds 2
  currentEpoch := 0
  members := [owner]
  closedAt := none
  supersededBy := none
  kind := .text
  generation := some 0
  seatListAdSha256 := none
  pendingRemovals := []
  memberAdded := []

/-- The commit that admits the second device. -/
def admission : MlsCommit where
  id := MlsCommit.compositeId groupId 1
  groupId := groupId
  epoch := 1
  committer := owner
  commit := "Y29tbWl0"
  size := 6
  added := [guest]
  removed := []
  createdAt := seconds 3
  rejoinIntents := []
  removedReasons := []

/-- The calls up to the protected channel. -/
def protectOps : List Op :=
  [.environment environment, .upsertChannelEntitlement entitlement 0,
    .protectChannel channelId genesis (seconds 1)]

/-- An active seat since the channel was protected. -/
def seat (userId : String) : ChannelSeat :=
  ⟨ChannelSeat.compositeId channelId userId, channelId, userId, seconds 1, none, none⟩

/-- The genesis list as it is parsed. -/
def genesisBody : SeatListBody :=
  ⟨channelId, 1, 0, 0, owner.userId, owner.deviceId, [owner.userId, guest.userId]⟩

/-- The genesis list as it is stored. -/
def genesisRow : SeatList :=
  ⟨channelId, 1, genesis.body, owner.userId, owner.deviceId, signature, [], seconds 1⟩

def protectedStore : ReferenceDb where
  channels := (∅ : Table String Channel).insert channelId
    (.textChannel serverId none none none true)
  messages := ∅
  channelEntitlements := (∅ : Table String ChannelEntitlement).insert entitlement.id entitlement
  servers := environment.servers
  serverMembers := environment.serverMembers
  channelSeatLists := (∅ : Table String SeatList).insert channelId genesisRow
  channelSeats := ((∅ : Table String ChannelSeat).insert (seat owner.userId).id
    (seat owner.userId)).insert (seat guest.userId).id (seat guest.userId)
  mlsGroups := ∅
  mlsCommits := ∅
  mlsJoinIntents := ∅
  e2eeIdentities := environment.e2eeIdentities
  e2eeQueue := ∅

/-- The Text group as it is stored. -/
def openedGroup : MlsGroup :=
  { group with
    seatListAdSha256 := some genesisSha256
    memberAdded := [⟨owner.userId, owner.deviceId, 0, seconds 2⟩] }

/-- The store after the Text group was created. -/
def openedStore : ReferenceDb :=
  { protectedStore with mlsGroups := (∅ : Table String MlsGroup).insert groupId openedGroup }

/-- The Text group with both devices. -/
def admittedGroup : MlsGroup :=
  { openedGroup with
    currentEpoch := 1
    members := [owner, guest]
    memberAdded := [⟨owner.userId, owner.deviceId, 0, seconds 2⟩,
      ⟨guest.userId, guest.deviceId, 1, seconds 3⟩] }

/-- The store after the second device was admitted. -/
def admittedStore : ReferenceDb :=
  { openedStore with
    mlsGroups := (∅ : Table String MlsGroup).insert groupId admittedGroup
    mlsCommits := (∅ : Table String MlsCommit).insert
      (ReferenceDb.textCommitKey admission.id) admission }

-- What is evaluated below is deep, the ids and the list being text.
set_option maxRecDepth 8000

/-- The text of both users' seats. -/
def bothSeats : String := owner.userId ++ "," ++ guest.userId

def listLines (version : String) : List String :=
  [contextSeatList, "v:1", "channel_id" ++ ":" ++ channelId, "version" ++ ":" ++ version,
    "device_cap" ++ ":" ++ "0", "issued_at" ++ ":" ++ "0",
    "signer_user_id" ++ ":" ++ owner.userId, "signer_device_id" ++ ":" ++ owner.deviceId,
    "seats" ++ ":" ++ bothSeats]

section

variable {version : String} {n : Nat} (hversion : version = "1" ∧ n = 1 ∨ version = "2" ∧ n = 2)
include hversion

theorem body_list :
    listBody version bothSeats = (String.singleton '\n').intercalate (listLines version) := by
  rcases hversion with ⟨rfl, -⟩ | ⟨rfl, -⟩ <;> decide

theorem splitChar_list : splitChar '\n' (listBody version bothSeats) = listLines version := by
  rw [body_list hversion]
  rcases hversion with ⟨rfl, -⟩ | ⟨rfl, -⟩ <;> exact splitChar_intercalate (by decide) (by decide)

theorem no_cr_list : '\r' ∉ (listBody version bothSeats).toList := by
  rw [body_list hversion, String.toList_intercalate]
  rcases hversion with ⟨rfl, -⟩ | ⟨rfl, -⟩ <;> decide

-- The parser is taken check by check, since evaluating it decodes the whole body at each.
theorem parse_list :
    SeatListBody.parse (listBody version bothSeats) = .ok { genesisBody with version := n } := by
  unfold SeatListBody.parse
  rw [splitChar_list hversion]
  simp only [bind_eq_ok, refuseIf_eq_ok, pure_eq_ok, okOr_eq_ok]
  have hcr := no_cr_list hversion
  rcases hversion with ⟨rfl, hn⟩ | ⟨rfl, hn⟩
  all_goals
    refine ⟨(), by decide, (), hcr, (), by decide, (), by decide,
      channelId, SeatListBody.field_of_line rfl, (), by decide,
      _, SeatListBody.field_of_line rfl, n, by subst hn; decide,
      "0", SeatListBody.field_of_line rfl, 0, by decide,
      "0", SeatListBody.field_of_line rfl, 0, by decide,
      owner.userId, SeatListBody.field_of_line rfl, (), by decide,
      owner.deviceId, SeatListBody.field_of_line rfl, (), by decide,
      bothSeats, SeatListBody.field_of_line rfl, (), by decide, ?_⟩
    exact ⟨(), by decide, (), by decide, (), by decide, (), by decide, rfl⟩

end

theorem parse_genesis : SeatListBody.parse genesis.body = .ok genesisBody :=
  parse_list (.inl ⟨rfl, rfl⟩)

/-- What the planner is given for the genesis list. -/
def genesisInput : SeatListWriteInput :=
  ⟨.protect, channelId, genesis, none, some entitlement, [], none, true, seconds 1⟩

/-- The writes of the genesis list. -/
def genesisPlan : SeatListWritePlan where
  row := genesisRow
  seatRows := [seat owner.userId, seat guest.userId]
  claimed := [owner.userId, guest.userId]
  released := []
  pendingAdded := []
  seatListAdSha256 := genesisSha256

theorem plan_genesis : planSeatListWrite primitives genesisInput = .ok (.apply genesisPlan) := by
  have hchec : checkSubmission primitives genesisInput = .ok genesisBody := by
    unfold checkSubmission
    simp only [bind_eq_ok, refuseIf_eq_ok, pure_eq_ok]
    exact ⟨genesisBody, parse_genesis, (), by decide, (), by decide, List.replicate 64 0,
      by decide, rfl⟩
  have hpl : planApply primitives genesisInput genesisBody = .ok genesisPlan := by decide
  unfold planSeatListWrite
  rw [bind_eq_ok]
  exact ⟨genesisBody, hchec, bind_eq_ok.mpr ⟨none, rfl, bind_eq_ok.mpr ⟨_, hpl, rfl⟩⟩⟩

def grantedStore : ReferenceDb where
  channels := environment.channels
  messages := ∅
  channelEntitlements := (∅ : Table String ChannelEntitlement).insert entitlement.id entitlement
  servers := environment.servers
  serverMembers := environment.serverMembers
  channelSeatLists := ∅
  channelSeats := ∅
  mlsGroups := ∅
  mlsCommits := ∅
  mlsJoinIntents := ∅
  e2eeIdentities := environment.e2eeIdentities
  e2eeQueue := ∅

theorem grant_run : execAll (exec primitives) .empty
    [.environment environment, .upsertChannelEntitlement entitlement 0] = grantedStore := by
  decide

theorem protect_first :
    grantedStore.protectFirst primitives (some serverId) channelId genesis (seconds 1) =
      .ok (protectedStore, genesisPlan.outcome) := by
  unfold ReferenceDb.protectFirst
  simp only [bind_eq_ok]
  exact ⟨(), by decide, genesisBody, parse_genesis, (), by decide, serverId, rfl, (), by decide,
    (), by decide, (), by decide, .apply genesisPlan, plan_genesis, (), by decide,
    by decide⟩

theorem protect_step : exec primitives grantedStore
      (.protectChannel channelId genesis (seconds 1)) =
    (protectedStore, .ok (.seatList genesisPlan.outcome)) := by
  have hsrv : (grantedStore.channels.get channelId).bind seatListChannelServer = some serverId := by
    decide
  refine exec_of_perform primitives ?_
  rw [perform, ReferenceDb.protectChannel_of_none primitives rfl, hsrv, protect_first]
  rfl

theorem protect_run : execAll (exec primitives) .empty protectOps = protectedStore := by
  have hgran := grant_run
  rw [execAll, execAll, execAll] at hgran
  rw [protectOps, execAll, execAll, execAll, execAll, hgran, protect_step]

theorem create_step : exec primitives protectedStore (.createTextMlsGroup group none) =
    (openedStore, .ok (.group .created)) := by
  decide

theorem storedList_genesis {group : MlsGroup} (hch : group.channelId = channelId) :
    checkStoredList group (some genesisRow) = .ok genesisBody := by
  unfold checkStoredList
  simp only [bind_eq_ok, refuseIf_eq_ok, okOr_eq_ok, mapErr_eq_ok, pure_eq_ok]
  refine ⟨genesisRow, rfl, genesisBody, parse_genesis, (), ?_, rfl⟩
  rw [hch]
  decide

def admissionPlan : MlsTextCommitPlan where
  stored := admission
  members := [owner, guest]
  memberAdded := admittedGroup.memberAdded
  clearedPending := []
  consumedIntentIds := [MlsJoinIntent.compositeId groupId guest.userId guest.deviceId]

theorem plan_admission : planMlsTextCommit openedGroup admission genesisSha256
    (some genesisRow) 0 [] [] [guest.userId] = .ok admissionPlan := by
  unfold planMlsTextCommit
  simp only [bind_eq_ok, refuseIf_eq_ok]
  exact ⟨(), by decide, (), by decide, (), by decide, (), by decide, (), by decide, (), by decide,
    (), by decide, genesisBody, storedList_genesis rfl, (), by decide, (), by decide, _, rfl, [],
    by decide, (), by decide, (), by decide, (), by decide, by decide⟩

theorem admit_step : exec primitives openedStore (.insertMlsTextCommit admission genesisSha256 0) =
      (admittedStore, .ok (.commit .won)) := by
  have hls : openedStore.channelSeatLists.get openedGroup.channelId = some genesisRow := by decide
  have hseat : openedStore.activeSeatUsersFor openedGroup.channelId admission.added =
      [guest.userId] := by
    decide
  have hpl := plan_admission
  rw [← hls, ← hseat] at hpl
  refine exec_of_perform primitives ?_
  rw [perform, ReferenceDb.insertMlsTextCommit_of_plan (by decide) (by decide) hpl]
  decide

/-- The Text group once the guest's seat was released. -/
def releasedGroup : MlsGroup :=
  { admittedGroup with pendingRemovals := [⟨guest.userId, seconds 4⟩] }

def releasedSeat : ChannelSeat :=
  { seat guest.userId with
    releasedAt := some (seconds 4)
    cooldownUntil := some (seconds 4 + Timestamp.days 14) }

/-- The store after the guest's seat was released. -/
def releasedStore : ReferenceDb :=
  { admittedStore with
    channelSeats := ((∅ : Table String ChannelSeat).insert (seat owner.userId).id
      (seat owner.userId)).insert (seat guest.userId).id releasedSeat
    mlsGroups := (∅ : Table String MlsGroup).insert groupId releasedGroup }

theorem release_step : exec primitives admittedStore
      (.releaseChannelSeatsForUser guest.userId none (seconds 4)) =
    (releasedStore, .ok (.channels [channelId])) := by
  decide

theorem retry_step :
    exec primitives releasedStore (.protectChannel channelId genesis (seconds 5)) =
      (releasedStore, .ok (.seatList (SeatListWriteDecision.unchanged genesisRow).outcome)) := by
  decide

/-- The commit by which the owner removes the guest's device. -/
def eviction : MlsCommit :=
  { admission with
    id := MlsCommit.compositeId groupId 2
    epoch := 2
    added := []
    removed := [guest]
    createdAt := seconds 6 }

theorem plan_eviction : ∃ plan, planMlsTextCommit releasedGroup eviction genesisSha256
    (some genesisRow) 0 [] [] [] = .ok plan := by
  unfold planMlsTextCommit
  simp only [bind_eq_ok, refuseIf_eq_ok]
  exact ⟨_, (), by decide, (), by decide, (), by decide, (), by decide, (), by decide, (),
    by decide, (), by decide, genesisBody, storedList_genesis rfl, (), by decide, (), by decide, _,
    rfl, [], by decide, (), by decide, (), by decide, (), by decide, rfl⟩

theorem evict_won :
    (exec primitives releasedStore (.insertMlsTextCommit eviction genesisSha256 0)).2 =
      .ok (.commit .won) := by
  have hls : releasedStore.channelSeatLists.get releasedGroup.channelId = some genesisRow := by
    decide
  have hrev : releasedStore.revokedIdentitiesFor eviction.removed = [] := by decide
  obtain ⟨plan, hpl⟩ := plan_eviction
  have hwon : releasedStore.insertMlsTextCommit eviction genesisSha256 0 = _ :=
    ReferenceDb.insertMlsTextCommit_of_plan (by decide) (by decide) (hls.symm ▸ hrev.symm ▸ hpl)
  rw [exec_of_perform primitives (by rw [perform, hwon]; rfl)]

end Sample

end SlogaBackend.Mls
