import SlogaBackend.Lib.SnapshotIsolation
import SlogaBackend.Mls.Reference

/-!
# The transactions of the MongoDB driver

The protected-channel writes of `models/protected_channels/ops/mongodb.rs` and the
Text commit of `models/mls/ops/mongodb.rs` are multi-document transactions. One
attempt of each is a function of the snapshot here: it reads the snapshot, stages its
writes in a `View`, and answers, refuses, or gives up for a retry.

A `txn_serial` increment changes no field that anything reads, so it is a touch: the
document counts as written and keeps its value. The claims that open a transaction
are touches too, so what is read after them is what the snapshot holds.

A row that a filter finds by `_id` is looked up by its key. The rows that a filter
finds by other fields are those of the snapshot it matches.
-/

namespace SlogaBackend.Mls
namespace Txn

open Checks ReferenceDb

/-! ## The store -/

/-- A document of `mls_commits`: the row and the storage-level kind marker. -/
structure StoredCommit where
  row : MlsCommit
  kind : Option MlsGroupKind

/-- The collections the transactions use. -/
structure Store where
  channels : Table String Channel
  messages : Table String Message
  servers : Table String Server
  serverMembers : Table MemberCompositeKey Unit
  channelEntitlements : Table String ChannelEntitlement
  channelSeatLists : Table String SeatList
  channelSeats : Table String ChannelSeat
  mlsGroups : Table String MlsGroup
  mlsCommits : Table String StoredCommit
  mlsJoinIntents : Table String MlsJoinIntent
  e2eeIdentities : Table String Unit
  e2eeQueue : Table String E2EEEnvelope

/-- A document a transaction may write: its collection and its `_id`. -/
inductive DocKey where
  | channel (id : String)
  | server (id : String)
  | member (key : MemberCompositeKey)
  | entitlement (id : String)
  | seatList (id : String)
  | seat (id : String)
  | group (id : String)
  | commit (id : String)
  | intent (id : String)
  | envelope (id : String)
  deriving DecidableEq

/-- What the document at a key holds. -/
def Doc : DocKey → Type
  | .channel _ => Channel
  | .server _ => Server
  | .member _ => Unit
  | .entitlement _ => ChannelEntitlement
  | .seatList _ => SeatList
  | .seat _ => ChannelSeat
  | .group _ => MlsGroup
  | .commit _ => StoredCommit
  | .intent _ => MlsJoinIntent
  | .envelope _ => E2EEEnvelope

/-- The document at a key. -/
def read : (k : DocKey) → Store → Option (Doc k)
  | .channel id, s => s.channels.get id
  | .server id, s => s.servers.get id
  | .member key, s => s.serverMembers.get key
  | .entitlement id, s => s.channelEntitlements.get id
  | .seatList id, s => s.channelSeatLists.get id
  | .seat id, s => s.channelSeats.get id
  | .group id, s => s.mlsGroups.get id
  | .commit id, s => s.mlsCommits.get id
  | .intent id, s => s.mlsJoinIntents.get id
  | .envelope id, s => s.e2eeQueue.get id

namespace DocKey

def channel? : DocKey → Option String
  | .channel id => some id
  | _ => none

def server? : DocKey → Option String
  | .server id => some id
  | _ => none

def member? : DocKey → Option MemberCompositeKey
  | .member key => some key
  | _ => none

def entitlement? : DocKey → Option String
  | .entitlement id => some id
  | _ => none

def seatList? : DocKey → Option String
  | .seatList id => some id
  | _ => none

def seat? : DocKey → Option String
  | .seat id => some id
  | _ => none

def group? : DocKey → Option String
  | .group id => some id
  | _ => none

def commit? : DocKey → Option String
  | .commit id => some id
  | _ => none

def intent? : DocKey → Option String
  | .intent id => some id
  | _ => none

def envelope? : DocKey → Option String
  | .envelope id => some id
  | _ => none

end DocKey

/-- Take the documents at some keys over from another store. -/
def install (keys : List DocKey) (view base : Store) : Store where
  channels := base.channels.overwrite view.channels (keys.filterMap DocKey.channel?)
  messages := base.messages
  servers := base.servers.overwrite view.servers (keys.filterMap DocKey.server?)
  serverMembers := base.serverMembers.overwrite view.serverMembers (keys.filterMap DocKey.member?)
  channelEntitlements := base.channelEntitlements.overwrite view.channelEntitlements
    (keys.filterMap DocKey.entitlement?)
  channelSeatLists := base.channelSeatLists.overwrite view.channelSeatLists
    (keys.filterMap DocKey.seatList?)
  channelSeats := base.channelSeats.overwrite view.channelSeats (keys.filterMap DocKey.seat?)
  mlsGroups := base.mlsGroups.overwrite view.mlsGroups (keys.filterMap DocKey.group?)
  mlsCommits := base.mlsCommits.overwrite view.mlsCommits (keys.filterMap DocKey.commit?)
  mlsJoinIntents := base.mlsJoinIntents.overwrite view.mlsJoinIntents
    (keys.filterMap DocKey.intent?)
  e2eeIdentities := base.e2eeIdentities
  e2eeQueue := base.e2eeQueue.overwrite view.e2eeQueue (keys.filterMap DocKey.envelope?)

theorem mem_filterMap_key {κ : Type} {proj : DocKey → Option κ} {inj : κ → DocKey}
    (hpr : ∀ k id, proj k = some id ↔ k = inj id) {keys : List DocKey} {id : κ} :
    id ∈ keys.filterMap proj ↔ inj id ∈ keys := by
  rw [mem_filterMap]
  constructor
  · rintro ⟨k, hmem, hk⟩
    rw [← (hpr k id).mp hk]
    exact hmem
  · intro hmem
    exact ⟨inj id, hmem, (hpr _ _).mpr rfl⟩

theorem get_overwrite_key {κ V : Type} [DecidableEq κ] {proj : DocKey → Option κ}
    {inj : κ → DocKey} (hpr : ∀ k id, proj k = some id ↔ k = inj id) (base view : Table κ V)
    (keys : List DocKey) (id : κ) : (base.overwrite view (keys.filterMap proj)).get id =
      if inj id ∈ keys then view.get id else base.get id := by
  rw [Table.get_overwrite]
  by_cases h : inj id ∈ keys
  · rw [if_pos h, if_pos ((mem_filterMap_key hpr).mpr h)]
  · rw [if_neg h, if_neg fun hmem => h ((mem_filterMap_key hpr).mp hmem)]

def documents : DocumentStore Store DocKey Doc where
  read := read
  install := install
  read_install := by
    intro keys view base k
    cases k with
    | channel id | server id | member id | entitlement id | seatList id | seat id | group id | commit id
    | intent id | envelope id =>
      refine get_overwrite_key (fun k id => ?_) _ _ _ _
      cases k <;> simp [DocKey.channel?, DocKey.server?, DocKey.member?, DocKey.entitlement?,
        DocKey.seatList?, DocKey.seat?, DocKey.group?, DocKey.commit?, DocKey.intent?,
        DocKey.envelope?]

/-- The unique indexes: one entitlement a channel, and one open group a channel and
kind. -/
def uniqueIndexes (s : Store) : Bool :=
  decide ((s.channelEntitlements.values.map (·.channelId)).Nodup) &&
    decide (((s.mlsGroups.values.filter (·.open_)).map fun group =>
      (group.channelId, group.kind)).Nodup)

/-! ## Views -/

/-- The store as a transaction sees it, with the keys it has written in each
collection. -/
structure View where
  snapshot : Store
  channels : Staged String Channel
  servers : Staged String Server
  serverMembers : Staged MemberCompositeKey Unit
  channelEntitlements : Staged String ChannelEntitlement
  channelSeatLists : Staged String SeatList
  channelSeats : Staged String ChannelSeat
  mlsGroups : Staged String MlsGroup
  mlsCommits : Staged String StoredCommit
  mlsJoinIntents : Staged String MlsJoinIntent
  e2eeQueue : Staged String E2EEEnvelope

namespace View

/-- Nothing written yet. -/
def of (s : Store) : View where
  snapshot := s
  channels := .of s.channels
  servers := .of s.servers
  serverMembers := .of s.serverMembers
  channelEntitlements := .of s.channelEntitlements
  channelSeatLists := .of s.channelSeatLists
  channelSeats := .of s.channelSeats
  mlsGroups := .of s.mlsGroups
  mlsCommits := .of s.mlsCommits
  mlsJoinIntents := .of s.mlsJoinIntents
  e2eeQueue := .of s.e2eeQueue

/-- The store the transaction would leave. -/
def store (v : View) : Store where
  channels := v.channels.rows
  messages := v.snapshot.messages
  servers := v.servers.rows
  serverMembers := v.serverMembers.rows
  channelEntitlements := v.channelEntitlements.rows
  channelSeatLists := v.channelSeatLists.rows
  channelSeats := v.channelSeats.rows
  mlsGroups := v.mlsGroups.rows
  mlsCommits := v.mlsCommits.rows
  mlsJoinIntents := v.mlsJoinIntents.rows
  e2eeIdentities := v.snapshot.e2eeIdentities
  e2eeQueue := v.e2eeQueue.rows

/-- The documents it has written. -/
def keys (v : View) : List DocKey :=
  v.channels.written.map .channel ++ v.servers.written.map .server ++
    v.serverMembers.written.map .member ++ v.channelEntitlements.written.map .entitlement ++
    v.channelSeatLists.written.map .seatList ++ v.channelSeats.written.map .seat ++
    v.mlsGroups.written.map .group ++ v.mlsCommits.written.map .commit ++
    v.mlsJoinIntents.written.map .intent ++ v.e2eeQueue.written.map .envelope

/-- `claim_groups_first`: touch the group documents a filter matches. -/
def claimGroupsFirst (v : View) (filter : MlsGroup → Bool) : View :=
  { v with mlsGroups := v.mlsGroups.touchWhere filter }

end View

/-! ## Attempts -/

/-- Why an attempt stopped: a conflict it saw itself, or a refusal. -/
inductive TxnFail where
  | retry (operation collection : String)
  | refuse (error : Error)

abbrev Attempt (α : Type) := Except TxnFail α

/-- A refusal ends the attempt as it is. -/
def orRefuse {α : Type} : Result α → Attempt α
  | .ok a => .ok a
  | .error error => .error (.refuse error)

theorem orRefuse_eq_ok {α : Type} {r : Result α} {a : α} : orRefuse r = .ok a ↔ r = .ok a := by
  cases r <;> simp [orRefuse]

def Store.findEntitlement (s : Store) (channelId : String) : Option ChannelEntitlement :=
  s.channelEntitlements.values.find? fun entitlement => entitlement.channelId == channelId

def Store.findOpenTextGroup (s : Store) (channelId : String) : Option MlsGroup :=
  s.mlsGroups.values.find? (isOpenTextGroupOf channelId)

def Store.ownsServer (s : Store) (serverId userId : String) : Bool :=
  (s.servers.get serverId).any fun server => server.owner == userId

def upsertEntitlementAttempt (s : Store) (entitlement : ChannelEntitlement) (now : Timestamp) :
    Attempt (View × ChannelEntitlement) := do
  refuseIf (entitlement.slotCap <
      channelSeatsUsed (seatsOf s.channelSeats entitlement.channelId) now)
    (.refuse (.seatCapReached entitlement.slotCap))
  match s.findEntitlement entitlement.channelId with
  | some existing =>
    let stored := storedEntitlement entitlement (some existing)
    return ({ View.of s with
      channelEntitlements := (View.of s).channelEntitlements.put stored.id stored }, stored)
  | none =>
    let channelEntitlements ← okOr
      ((View.of s).channelEntitlements.insertOne entitlement.id entitlement)
      (.retry "insert_one" "channel_entitlements")
    return ({ View.of s with channelEntitlements }, entitlement)

/-! ### Seat lists -/

def Store.seatListWriteInput (s : Store) (kind : SeatListWriteKind) (channelId : String)
    (submission : SeatListSubmission) (allowClaims : Bool) (now : Timestamp) :
    SeatListWriteInput where
  kind := kind
  channelId := channelId
  submission := submission
  stored := s.channelSeatLists.get channelId
  entitlement := s.findEntitlement channelId
  seats := seatsOf s.channelSeats channelId
  textGroup := s.findOpenTextGroup channelId
  allowClaims := allowClaims
  now := now

/-- `genesis_reprotect_attempt`: the stored success of a byte-identical protect retry. -/
def genesisReprotectAttempt (s : Store) (channelId : String) (submission : SeatListSubmission) :
    Option SeatListWriteOutcome := do
  let stored ← (s.channelSeatLists.get channelId).filter (isGenesisReprotect submission)
  let serverId ← (s.channels.get channelId).bind seatListChannelServer
  if s.ownsServer serverId stored.signerUserId then
    return (SeatListWriteDecision.unchanged stored).outcome
  else none

/-- What a protect checks and claims before the entitlement: the channel, and the server,
owned by the list's signer. -/
def claimProtectServer (v : View) (channelId : String) (submission : SeatListSubmission) :
    Attempt (View × String) := do
  orRefuse (checkChannelProtectable (v.snapshot.channels.get channelId))
  let serverId ← okOr ((v.snapshot.channels.get channelId).bind seatListChannelServer)
    (.refuse .invalidOperation)
  let body ← orRefuse (SeatListBody.parse submission.body)
  let servers ← okOr (v.servers.touchOne serverId fun server => server.owner == body.signerUserId)
    (.refuse .notOwner)
  refuseIf (v.snapshot.channels.values.any (isThreadOf channelId)) (.refuse .invalidOperation)
  refuseIf (v.snapshot.messages.values.any fun message => message.channel == channelId)
    (.refuse .invalidOperation)
  refuseIf ((v.snapshot.findEntitlement channelId).any (fun entitlement =>
    entitlement.isActive && entitlement.serverId == serverId) = false) (.refuse .invalidOperation)
  return ({ v with servers }, serverId)

/-- `claim_members`: touch the membership of every newly seated user. -/
def claimMembers (v : View) (serverId : String) : List String → Attempt View
  | [] => .ok v
  | userId :: users => do
    let serverMembers ← okOr (v.serverMembers.touchOne ⟨serverId, userId⟩ fun _ => true)
      (.refuse (failed "seated user is not a member of the server"))
    claimMembers { v with serverMembers } serverId users

/-- The claims of a list that seats somebody: the members, and the entitlement its cap
was read from. -/
def claimForSeats (v : View) (protectServer : Option String)
    (entitlement : Option ChannelEntitlement) : SeatListWriteDecision → Attempt View
  | .unchanged _ => .ok v
  | .apply plan =>
    if plan.claimed = [] then .ok v
    else do
      let serverId ← okOr (protectServer.or (entitlement.map (·.serverId)))
        (.refuse .invalidOperation)
      let v ← claimMembers v serverId plan.claimed
      match entitlement with
      | none => return v
      | some entitlement =>
        let channelEntitlements ← okOr (v.channelEntitlements.touchOne entitlement.id fun row =>
          row.slotCap == entitlement.slotCap) (.retry "update_one" "channel_entitlements")
        return { v with channelEntitlements }

/-- The list row: inserted at genesis, else replaced at the version that was read. -/
def writeList (v : View) (plan : SeatListWritePlan) : Option Int → Attempt View
  | none => do
    let channelSeatLists ← okOr (v.channelSeatLists.insertOne plan.row.id plan.row)
      (.retry "insert_one" "channel_seat_lists")
    return { v with channelSeatLists }
  | some version => do
    let channelSeatLists ← okOr (v.channelSeatLists.updateOne plan.row.id
      (fun row => row.version == version) fun _ => plan.row)
      (.retry "replace_one" "channel_seat_lists")
    return { v with channelSeatLists }

/-- The open Text group: bound to the new list, the dropped users pending. -/
def writeGroup (v : View) (plan : SeatListWritePlan) : Option MlsGroup → Attempt View
  | none => .ok v
  | some group => do
    let mlsGroups ← okOr (v.mlsGroups.updateOne group.id
      (fun row => row.open_ && row.kind == .text) (bindList plan))
      (.retry "update_one" "mls_groups")
    return { v with mlsGroups }

def applyDecision (v : View) (storedVersion : Option Int) (textGroup : Option MlsGroup) :
    SeatListWriteDecision → Attempt View
  | .unchanged _ => .ok v
  | .apply plan => do
    let v ← writeList v plan storedVersion
    let v := { v with channelSeats := v.channelSeats.putAll (·.id) plan.seatRows }
    writeGroup v plan textGroup

/-- Whether the channel may still be flagged as protected. -/
def isUnprotectedEmpty : Channel → Bool
  | .textChannel _ lastMessageId _ _ protected_ => !protected_ && lastMessageId.isNone
  | _ => false

def flagProtected (v : View) (channelId : String) : SeatListWriteKind → Attempt View
  | .put => .ok v
  | .protect => do
    let channels ← okOr (v.channels.updateOne channelId isUnprotectedEmpty setProtected)
      (.retry "update_one" "channels")
    return { v with channels }

/-- What a protect claims; a PUT claims nothing here. -/
def claimServer (v : View) (channelId : String) (submission : SeatListSubmission) :
    SeatListWriteKind → Attempt (View × Option String)
  | .put => .ok (v, none)
  | .protect => do
    let (v, serverId) ← claimProtectServer v channelId submission
    return (v, some serverId)

variable (prim : Primitives)

/-- `seat_list_write_attempt`, past the answer to a protect retry. -/
def writeSeatList (s : Store) (kind : SeatListWriteKind) (channelId : String)
    (submission : SeatListSubmission) (allowClaims : Bool) (now : Timestamp) :
    Attempt (View × SeatListWriteOutcome) := do
  let v := (View.of s).claimGroupsFirst (isOpenTextGroupOf channelId)
  let (v, protectServer) ← claimServer v channelId submission kind
  let decision ← orRefuse (planSeatListWrite prim
    (s.seatListWriteInput kind channelId submission allowClaims now))
  let v ← claimForSeats v protectServer (s.findEntitlement channelId) decision
  let v ← applyDecision v ((s.channelSeatLists.get channelId).map (·.version))
    (s.findOpenTextGroup channelId) decision
  let v ← flagProtected v channelId kind
  return (v, decision.outcome)

def seatListWriteAttempt (s : Store) (kind : SeatListWriteKind) (channelId : String)
    (submission : SeatListSubmission) (allowClaims : Bool) (now : Timestamp) :
    Attempt (View × SeatListWriteOutcome) :=
  match (if kind = .protect then genesisReprotectAttempt s channelId submission else none) with
  | some outcome => .ok (View.of s, outcome)
  | none => writeSeatList prim s kind channelId submission allowClaims now

/-! ### Text groups -/

/-- The group documents a Text create claims: the one it supersedes, and a Call squat at
its own id. -/
def claimsOfCreate (group : MlsGroup) (supersedes : Option String) (row : MlsGroup) : Bool :=
  (supersedes == some row.id && row.open_ && row.kind == .text) ||
    (isDerivedTextGroupId prim group && row.id == group.id && row.kind == .call)

/-- The generation and successor checks; an open group other than the superseded one is a
conflict. -/
def Store.textCreateConflict (s : Store) (group : MlsGroup) :
    Option String → Result (Option MlsGroupCreateOutcome)
  | some supersededId => do
    let superseded ← okOr (s.mlsGroups.get supersededId) .notFound
    checkTextSuccessor superseded group
    return ((s.findOpenTextGroup group.channelId).filter fun open_ =>
      open_.id != supersededId).map conflictWith
  | none => do
    checkTextFirstGeneration group
    return (s.findOpenTextGroup group.channelId).map conflictWith

/-- `evict_call_squat`, where a row stands at the id of the create. -/
def evictCallSquat (v : View) (evictable : Bool) (id : String) : Attempt View :=
  match v.mlsGroups.rows.get id with
  | none => .ok v
  | some row =>
    if evictable = true ∧ row.kind = .call then
      .ok { v with
        mlsGroups := v.mlsGroups.deleteOne id fun row => row.kind == .call
        mlsCommits := v.mlsCommits.deleteWhere fun document => document.row.groupId == id
        mlsJoinIntents := v.mlsJoinIntents.deleteWhere fun intent => intent.groupId == id
        e2eeQueue := v.e2eeQueue.deleteWhere fun envelope => envelope.groupId == some id }
    else .error (.refuse .invalidOperation)

/-- Close the superseded group, if it is still open. -/
def closeSuperseded (v : View) (group : MlsGroup) : Option String → View
  | none => v
  | some supersededId =>
    { v with mlsGroups := v.mlsGroups.updateWhere (fun row =>
        row.id == supersededId && row.open_ && row.kind == .text) (supersede group) }

def createTextGroupAttempt (s : Store) (group : MlsGroup) (supersedes : Option String) :
    Attempt (View × MlsGroupCreateOutcome) := do
  let v := (View.of s).claimGroupsFirst (claimsOfCreate prim group supersedes)
  let list ← okOr (s.channelSeatLists.get group.channelId)
    (.refuse (failed "channel has no seat list"))
  match ← orRefuse (s.textCreateConflict group supersedes) with
  | some conflict => return (v, conflict)
  | none =>
    let prepared ← orRefuse (prepareTextGroup prim group list)
    let channelSeatLists ← okOr (v.channelSeatLists.touchOne list.id fun row =>
      row.version == list.version) (.retry "update_one" "channel_seat_lists")
    let v ← evictCallSquat { v with channelSeatLists } (isDerivedTextGroupId prim group) prepared.id
    let v := closeSuperseded v group supersedes
    let mlsGroups ← okOr (v.mlsGroups.insertOne prepared.id prepared)
      (.retry "insert_one" "mls_groups")
    return ({ v with mlsGroups }, .created)

/-! ### Releases and deletion -/

/-- The channels a release covers: all of them, or those entitled to one server. -/
def Store.inScope (s : Store) (serverId : Option String) (channelId : String) : Bool :=
  match serverId with
  | none => true
  | some serverId => s.channelEntitlements.values.any fun entitlement =>
    entitlement.serverId == serverId && entitlement.channelId == channelId

/-- The group documents a release claims. -/
def Store.hasMemberGroup (s : Store) (userId : String) (serverId : Option String)
    (group : MlsGroup) : Bool :=
  group.open_ && group.kind == .text && s.inScope serverId group.channelId &&
    group.members.any fun member => member.userId == userId

/-- Whether a release frees a seat row. -/
def Store.releasesSeat (s : Store) (userId : String) (serverId : Option String)
    (seat : ChannelSeat) : Bool :=
  seat.userId == userId && seat.isActive && s.inScope serverId seat.channelId

/-- Whether a release leaves a pending removal on a group. -/
def Store.pendsRemoval (s : Store) (userId : String) (serverId : Option String)
    (group : MlsGroup) : Bool :=
  s.hasMemberGroup userId serverId group && !group.hasPendingRemoval userId

def releaseAttempt (s : Store) (userId : String) (serverId : Option String) (now : Timestamp) :
    Attempt (View × List String) := do
  let cooldownUntil ← orRefuse (seatCooldownUntil now)
  let v := (View.of s).claimGroupsFirst (s.hasMemberGroup userId serverId)
  return ({ v with
      channelSeats := v.channelSeats.updateWhere (s.releasesSeat userId serverId)
        (releasedSeat now cooldownUntil)
      mlsGroups := v.mlsGroups.updateWhere (s.pendsRemoval userId serverId)
        (pushPending userId now) },
    btreeSet (((s.channelSeats.values.filter (s.releasesSeat userId serverId)).map (·.channelId)) ++
      ((s.mlsGroups.values.filter (s.pendsRemoval userId serverId)).map (·.channelId))))

/-- Whether a group is a Text group of a channel, open or closed. -/
def isTextGroupOf (channelId : String) (group : MlsGroup) : Bool :=
  group.channelId == channelId && group.kind == .text

def deleteAttempt (s : Store) (channelId : String) : View :=
  let v := (View.of s).claimGroupsFirst (isTextGroupOf channelId)
  let groupIds := (s.mlsGroups.values.filter (isTextGroupOf channelId)).map (·.id)
  { v with
    channelEntitlements := v.channelEntitlements.deleteWhere fun entitlement =>
      entitlement.channelId == channelId
    channelSeats := v.channelSeats.deleteWhere fun seat => seat.channelId == channelId
    channelSeatLists := v.channelSeatLists.deleteOne channelId fun _ => true
    mlsGroups := v.mlsGroups.deleteWhere (isTextGroupOf channelId)
    mlsCommits := v.mlsCommits.deleteWhere fun document =>
      groupIds.contains document.row.groupId
    mlsJoinIntents := v.mlsJoinIntents.deleteWhere fun intent =>
      groupIds.contains intent.groupId }

/-! ### Text commits -/

def Store.storedIntentsFor (s : Store) (group : MlsGroup) (removed : List MlsMemberDevice) :
    List MlsJoinIntent :=
  removed.filterMap fun device =>
    s.mlsJoinIntents.get (MlsJoinIntent.compositeId group.id device.userId device.deviceId)

/-- The identities of the removed devices that are gone. -/
def Store.revokedIdentitiesFor (s : Store) (removed : List MlsMemberDevice) : List String :=
  (removed.map fun device => identityCompositeId device.userId device.deviceId).filter
    fun id => (s.e2eeIdentities.get id).isNone

/-- The conditional write of each added user's active seat row: the view, and the users
whose row matched. -/
def claimSeats (v : View) (channelId : String) : List MlsMemberDevice → View × List String
  | [] => (v, [])
  | added :: rest =>
    match v.channelSeats.touchOne (ChannelSeat.compositeId channelId added.userId)
      ChannelSeat.isActive with
    | some channelSeats =>
      let (v, users) := claimSeats { v with channelSeats } channelId rest
      (v, added.userId :: users)
    | none => claimSeats v channelId rest

/-- The commit row: an unmarked row at the id goes first, then the row is inserted and
marked. -/
def writeTextCommit (v : View) (id : String) (stored : MlsCommit) : Attempt View := do
  let cleared := v.mlsCommits.deleteOne id fun document => document.kind != some .text
  let inserted ← okOr (cleared.insertOne stored.id ⟨stored, none⟩) (.retry "insert_one" "mls_commits")
  let mlsCommits ← okOr (inserted.updateOne id (fun _ => true) fun document =>
    { document with kind := some .text }) (.retry "update_one" "mls_commits")
  return { v with mlsCommits }

/-- The group update, filtered on the state that was validated. -/
def advanceTextGroup (v : View) (group : MlsGroup) (commit : MlsCommit) (adSha256 : String)
    (plan : MlsTextCommitPlan) : Attempt View := do
  let mlsGroups ← okOr (v.mlsGroups.updateOne group.id (fun row =>
      row.open_ && row.kind == .text && decide (row.currentEpoch = commit.epoch - 1) &&
        row.seatListAdSha256 == some adSha256) fun row => applyTextCommit row commit plan)
    (.retry "update_one" "mls_groups")
  return { v with mlsGroups }

/-- `text_commit_attempt`. A Text-marked row of the epoch wins before any check. -/
def textCommitAttempt (s : Store) (commit : MlsCommit) (adSha256 : String)
    (entitlementDeviceCap : Nat) : Attempt (View × MlsCommitOutcome) :=
  let id := MlsCommit.compositeId commit.groupId commit.epoch
  match (s.mlsCommits.get id).filter fun document => document.kind == some .text with
  | some winning => .ok (View.of s, .lost winning.row)
  | none => do
    let group ← okOr (s.mlsGroups.get commit.groupId) (.refuse .notFound)
    let (v, activeSeatUsers) := claimSeats (View.of s) group.channelId commit.added
    let plan ← orRefuse (planMlsTextCommit group commit adSha256
      (s.channelSeatLists.get group.channelId) entitlementDeviceCap
      (s.storedIntentsFor group commit.removed) (s.revokedIdentitiesFor commit.removed)
      activeSeatUsers)
    let v ← writeTextCommit v id plan.stored
    let v ← advanceTextGroup v group commit adSha256 plan
    return ({ v with mlsJoinIntents := v.mlsJoinIntents.deleteWhere fun intent =>
      plan.consumedIntentIds.contains intent.id }, .won)

/-! ## The database -/

/-- What a transaction is asked to do. -/
inductive Request where
  | upsertEntitlement (entitlement : ChannelEntitlement) (now : Timestamp)
  | protect (channelId : String) (submission : SeatListSubmission) (now : Timestamp)
  | put (channelId : String) (submission : SeatListSubmission) (allowClaims : Bool)
      (now : Timestamp)
  | createText (group : MlsGroup) (supersedes : Option String)
  | release (userId : String) (serverId : Option String) (now : Timestamp)
  | delete (channelId : String)
  | textCommit (commit : MlsCommit) (adSha256 : String) (entitlementDeviceCap : Nat)

/-- The clock reading a request is made with. -/
def Request.now? : Request → Option Timestamp
  | .upsertEntitlement _ now => some now
  | .protect _ _ now => some now
  | .put _ _ _ now => some now
  | .release _ _ now => some now
  | _ => none

/-- One attempt of a request: the view it stages, and its answer. -/
def attemptView (request : Request) (s : Store) : Attempt (View × Response) :=
  match request with
  | .upsertEntitlement entitlement now =>
    (Prod.map id .entitlement) <$> upsertEntitlementAttempt s entitlement now
  | .protect channelId submission now =>
    (Prod.map id .seatList) <$> seatListWriteAttempt prim s .protect channelId submission true now
  | .put channelId submission allowClaims now =>
    (Prod.map id .seatList) <$> seatListWriteAttempt prim s .put channelId submission allowClaims now
  | .createText group supersedes =>
    (Prod.map id .group) <$> createTextGroupAttempt prim s group supersedes
  | .release userId serverId now => (Prod.map id .channels) <$> releaseAttempt s userId serverId now
  | .delete channelId => .ok (deleteAttempt s channelId, .done)
  | .textCommit commit adSha256 entitlementDeviceCap =>
    (Prod.map id .commit) <$> textCommitAttempt s commit adSha256 entitlementDeviceCap

/-- An attempt, as the store it would leave and the documents it has written. -/
def attempt (request : Request) (s : Store) : Attempt ((Store × List DocKey) × Response) :=
  (fun result => ((result.1.store, result.1.keys), result.2)) <$> attemptView prim request s

/-- The driver's transactions over one store. -/
abbrev TxnDatabase := Database Store DocKey Request

/-- One event of the database. -/
def exec (db : TxnDatabase) (event : TxnEvent Request) : TxnDatabase × Verdict TxnFail Response :=
  Database.exec documents (attempt prim) uniqueIndexes db event

/-- The clock does not run backwards: a request that begins is made no earlier than any
that has committed. -/
def Admits (db : TxnDatabase) : TxnEvent Request → Prop
  | .begin _ request => ∀ earlier ∈ db.log, ∀ t ∈ earlier.now?, ∀ now ∈ request.now?, t ≤ now
  | _ => True

end Txn
end SlogaBackend.Mls
