import Mathlib.Algebra.Group.Int.Defs
import SlogaBackend.Lib.Collection
import SlogaBackend.Permissions.Values

/-!
# Calculating permissions

`calculate_user_permissions`, `calculate_server_permissions` and
`calculate_channel_permissions` ask a query, and are generic in it. The query of the
database (`DatabasePermissionQuery`) fetches what it has not got and keeps it, so that a
calculation is a state transformer of the query.

The roles of a server and the role overrides of a channel are hash maps. A table is a list
of entries with distinct keys, and the order of the list is the order in which the map is
iterated: nothing that is proved of all tables depends on one.
-/

namespace SlogaBackend.Permissions

/-! ## Documents -/

structure Role where
  id : String
  name : String
  permissions : OverrideField
  rank : Int
  deriving DecidableEq

structure Server where
  id : String
  owner : String
  channels : List String
  roles : Collection Role.id
  defaultPermissions : BitVec 64
  deriving DecidableEq

inductive Channel where
  | savedMessages (id user : String)
  | directMessage (id : String) (recipients : List String)
  | group (id owner : String) (recipients : List String) (permissions : Option (BitVec 64))
  | textChannel (id server : String) (defaultPermissions : Option OverrideField)
      (rolePermissions : Table String OverrideField)
  | thread (id server parentChannel : String)
  | forum (id server : String) (defaultPermissions : Option OverrideField)
      (rolePermissions : Table String OverrideField)

def Channel.id : Channel → String
  | .savedMessages id _ => id
  | .directMessage id _ => id
  | .group id _ _ _ => id
  | .textChannel id _ _ _ => id
  | .thread id _ _ => id
  | .forum id _ _ _ => id

def Channel.overrides : Channel → Option (Table String OverrideField × Option OverrideField)
  | .textChannel _ _ defaultPermissions rolePermissions => some (rolePermissions, defaultPermissions)
  | .forum _ _ defaultPermissions rolePermissions => some (rolePermissions, defaultPermissions)
  | _ => none

structure Member where
  server : String
  user : String
  roles : List String
  timeout : Option Timestamp
  /-- Not muted by the server. -/
  canPublish : Bool
  /-- Not deafened by the server. -/
  canReceive : Bool
  deriving DecidableEq

/-- The composite key: the server, and the user in it. -/
def Member.id (member : Member) : String × String := (member.server, member.user)

def Member.inTimeout (member : Member) (now : Timestamp) : Bool :=
  match member.timeout with
  | some timeout => now < timeout
  | none => false

inductive RelationshipStatus where
  | none
  | user
  | friend
  | outgoing
  | incoming
  | blocked
  | blockedOther
  deriving DecidableEq

structure User where
  id : String
  privileged : Bool
  /-- The owner, when the user is a bot. -/
  bot : Option String
  relations : List (String × RelationshipStatus)
  deriving DecidableEq

/-- The documents a query reads, and the clock. -/
structure Database where
  users : Collection User.id
  servers : Collection Server.id
  channels : Collection Channel.id
  members : Collection Member.id
  now : Timestamp

/-- The rank of a member: the smallest of the roles, below every role without one. -/
def Member.getRanking (member : Member) (server : Server) : Int :=
  if member.user = server.owner then -(2 ^ 63)
  else member.roles.foldl (fun value id =>
    match server.roles.findOne id with
    | some role => if role.rank < value then role.rank else value
    | Option.none => value) (2 ^ 63 - 1)

/-! ## Queries -/

inductive ChannelType where
  | savedMessages
  | directMessage
  | group
  | serverChannel
  | unknown

class PermissionQuery (Q : Type) where
  areWePrivileged : StateM Q Bool
  areTheUsersSame : StateM Q Bool
  userRelationship : StateM Q RelationshipStatus
  haveMutualConnection : StateM Q Bool
  areWeServerOwner : StateM Q Bool
  areWeAMember : StateM Q Bool
  getDefaultServerPermissions : StateM Q PermissionValue
  getOurServerRoleOverrides : StateM Q (List (Override PermissionValue))
  areWeTimedOut : StateM Q Bool
  doWeHavePublishOverwrites : StateM Q Bool
  doWeHaveReceiveOverwrites : StateM Q Bool
  getChannelType : StateM Q ChannelType
  getDefaultChannelPermissions : StateM Q (Override PermissionValue)
  getOurChannelRoleOverrides : StateM Q (List (Override PermissionValue))
  doWeOwnTheChannel : StateM Q Bool
  areWePartOfTheChannel : StateM Q Bool
  setRecipientAsUser : StateM Q Unit
  setServerFromChannel : StateM Q Unit

section Calculate

open PermissionQuery

variable {Q : Type} [PermissionQuery Q]

def userAccess : PermissionValue := 1
def userViewProfile : PermissionValue := 2
def userSendMessage : PermissionValue := 4

def calculateUserPermissions : StateM Q PermissionValue := do
  if ← areWePrivileged then return BitVec.allOnes 64
  if ← areTheUsersSame then return BitVec.allOnes 64
  match ← userRelationship with
  | .friend => return BitVec.allOnes 64
  | .blocked => return userAccess
  | .blockedOther => return userAccess
  | .incoming => ifMutual userAccess
  | .outgoing => ifMutual userAccess
  | .none => ifMutual 0
  | .user => ifMutual 0
where
  /-- Sharing a server or a group is enough to open a conversation. -/
  ifMutual (permissions : PermissionValue) : StateM Q PermissionValue := do
    if ← haveMutualConnection then return userAccess ||| userViewProfile ||| userSendMessage
    else return permissions

def calculateServerPermissions : StateM Q PermissionValue := do
  if ← areWePrivileged then return grantAllSafe
  if ← areWeServerOwner then return grantAllSafe
  if !(← areWeAMember) then return 0
  let permissions ← getDefaultServerPermissions
  let overrides ← getOurServerRoleOverrides
  let permissions := overrides.foldl PermissionValue.apply permissions
  let publish ← doWeHavePublishOverwrites
  let permissions :=
    if publish then permissions
    else (PermissionValue.revoke permissions ChannelPermission.speak.value).revoke
      ChannelPermission.video.value
  let receive ← doWeHaveReceiveOverwrites
  let permissions :=
    if receive then permissions
    else PermissionValue.revoke permissions ChannelPermission.listen.value
  let timedOut ← areWeTimedOut
  return if timedOut then PermissionValue.restrict permissions allowInTimeout else permissions

def calculateChannelPermissions : StateM Q PermissionValue := do
  if ← areWePrivileged then return grantAllSafe
  match ← getChannelType with
  | .savedMessages =>
    if ← doWeOwnTheChannel then return defaultPermissionSavedMessages
    else return 0
  | .directMessage =>
    if ← areWePartOfTheChannel then
      setRecipientAsUser
      let permissions ← calculateUserPermissions
      if permissions.has userSendMessage then return defaultPermissionDirectMessage
      else return defaultPermissionViewOnly
    else return 0
  | .group =>
    if ← doWeOwnTheChannel then return grantAllSafe
    else if ← areWePartOfTheChannel then
      let defaults ← getDefaultChannelPermissions
      return defaultPermissionViewOnly ||| defaults.allow
    else return 0
  | .serverChannel =>
    setServerFromChannel
    if ← areWeServerOwner then return grantAllSafe
    else if ← areWeAMember then
      let permissions ← calculateServerPermissions
      let defaults ← getDefaultChannelPermissions
      let permissions := PermissionValue.apply permissions defaults
      let overrides ← getOurChannelRoleOverrides
      let permissions := overrides.foldl PermissionValue.apply permissions
      let timedOut ← areWeTimedOut
      let permissions :=
        if timedOut then PermissionValue.restrict permissions allowInTimeout else permissions
      return if permissions.hasChannelPermission .viewChannel then permissions else 0
    else return 0
  | .unknown => return 0

end Calculate

/-! ## The query of the database -/

structure DatabasePermissionQuery where
  database : Database
  perspective : User
  user : Option User
  channel : Option Channel
  server : Option Server
  member : Option Member
  cachedMutualConnection : Option Bool

/-- Both are members of one server, or recipients of one channel. -/
def hasMutualConnection (db : Database) (userA userB : String) : Bool :=
  (db.members.rows.keys.any fun key =>
      key.2 == userB && (db.members.findOne (key.1, userA)).isSome) ||
    db.channels.rows.values.any fun channel =>
      match channel with
      | .group _ _ recipients _ => recipients.contains userA && recipients.contains userB
      | .directMessage _ recipients => recipients.contains userA && recipients.contains userB
      | _ => false

/-- The overrides of the roles a member holds, in the order the server's map has them. -/
def heldRoles (server : Server) (held : List String) : List (Int × Override PermissionValue) :=
  (server.roles.rows.entries.filter fun entry => held.contains entry.1).map fun entry =>
    (entry.2.rank, entry.2.permissions.toOverride)

/-- The overrides a channel has for the roles a member holds; a role the server has not got
is passed over. -/
def heldOverrides (server : Server) (rolePermissions : Table String OverrideField)
    (held : List String) : List (Int × Override PermissionValue) :=
  (rolePermissions.entries.filter fun entry => held.contains entry.1).filterMap fun entry =>
    (server.roles.findOne entry.1).map fun role => (role.rank, entry.2.toOverride)

namespace DatabasePermissionQuery

def new (database : Database) (perspective : User) : DatabasePermissionQuery :=
  ⟨database, perspective, none, none, none, none, none⟩

def withChannel (q : DatabasePermissionQuery) (channel : Channel) : DatabasePermissionQuery :=
  { q with channel := some channel }

def withServer (q : DatabasePermissionQuery) (server : Server) : DatabasePermissionQuery :=
  { q with server := some server }

def withMember (q : DatabasePermissionQuery) (member : Member) : DatabasePermissionQuery :=
  { q with member := some member }

def withUser (q : DatabasePermissionQuery) (user : User) : DatabasePermissionQuery :=
  { q with user := some user }

def getMemberRank (q : DatabasePermissionQuery) : Option Int :=
  q.member.bind fun member => q.server.map fun server => member.getRanking server

def heldBy (q : DatabasePermissionQuery) : List String :=
  match q.member with
  | some member => member.roles
  | none => []

def relationship (q : DatabasePermissionQuery) : RelationshipStatus :=
  match q.user with
  | some other =>
    if q.perspective.id = other.id then .user
    else if other.bot = some q.perspective.id then .user
    else
      match q.perspective.relations.find? fun entry => entry.1 == other.id with
      | some entry => entry.2
      | none => .none
  | none => .none

def isMember (q : DatabasePermissionQuery) : Bool × DatabasePermissionQuery :=
  match q.server with
  | some server =>
    match q.member with
    | some _ => (true, q)
    | none =>
      match q.database.members.findOne (server.id, q.perspective.id) with
      | some member => (true, { q with member := some member })
      | none => (false, q)
  | none => (false, q)

def mutualConnection (q : DatabasePermissionQuery) : Bool × DatabasePermissionQuery :=
  match q.cachedMutualConnection with
  | some value => (value, q)
  | none =>
    match q.user with
    | some user =>
      let value := hasMutualConnection q.database q.perspective.id user.id
      (value, { q with cachedMutualConnection := some value })
    | none => (false, q)

def channelType (q : DatabasePermissionQuery) : ChannelType :=
  match q.channel with
  | some (.directMessage _ _) => .directMessage
  | some (.group _ _ _ _) => .group
  | some (.savedMessages _ _) => .savedMessages
  | some (.textChannel _ _ _ _) => .serverChannel
  | some (.thread _ _ _) => .serverChannel
  | some (.forum _ _ _ _) => .serverChannel
  | none => .unknown

/-- The stored override of a channel, or the empty one. -/
def orEmpty (defaultPermissions : Option OverrideField) : Override PermissionValue :=
  (defaultPermissions.getD .empty).toOverride

def defaultChannelPermissions (q : DatabasePermissionQuery) : Override PermissionValue :=
  match q.channel with
  | some (.group _ _ _ permissions) => ⟨permissions.getD defaultPermissionDirectMessage, 0⟩
  | some (.textChannel _ _ defaultPermissions _) => orEmpty defaultPermissions
  | some (.forum _ _ defaultPermissions _) => orEmpty defaultPermissions
  | _ => ⟨0, 0⟩

def channelRoleOverrides (q : DatabasePermissionQuery) : List (Override PermissionValue) :=
  match q.channel, q.server with
  | some (.textChannel _ _ _ rolePermissions), some server =>
    byRank (heldOverrides server rolePermissions q.heldBy)
  | some (.forum _ _ _ rolePermissions), some server =>
    byRank (heldOverrides server rolePermissions q.heldBy)
  | _, _ => []

def serverOf : Channel → Option String
  | .textChannel _ server _ _ => some server
  | .thread _ server _ => some server
  | .forum _ server _ _ => some server
  | _ => none

/-- Fetch the channel's server, unless it is the one at hand. -/
def fetchServer (q : DatabasePermissionQuery) : DatabasePermissionQuery :=
  match q.channel.bind serverOf with
  | some serverId =>
    if q.server.map Server.id = some serverId then q
    else
      match q.database.servers.findOne serverId with
      | some server => { q with server := some server }
      | none => q
  | none => q

/-- The other recipient of a direct message. -/
def fetchRecipient (q : DatabasePermissionQuery) : DatabasePermissionQuery :=
  match q.channel with
  | some (.directMessage _ recipients) =>
    match (recipients.find? fun id => id != q.perspective.id).bind q.database.users.findOne with
    | some user => { q with user := some user }
    | none => q
  | _ => q

end DatabasePermissionQuery

instance : PermissionQuery DatabasePermissionQuery where
  areWePrivileged := do return (← get).perspective.privileged
  areTheUsersSame := do
    let q ← get
    return q.user.any fun other => q.perspective.id == other.id
  userRelationship := do return (← get).relationship
  haveMutualConnection := fun q => q.mutualConnection
  areWeServerOwner := do
    let q ← get
    return q.server.any fun server => server.owner == q.perspective.id
  areWeAMember := fun q => q.isMember
  getDefaultServerPermissions := do
    return match (← get).server with
      | some server => server.defaultPermissions
      | none => 0
  getOurServerRoleOverrides := do
    let q ← get
    return match q.server with
      | some server => byRank (heldRoles server q.heldBy)
      | none => []
  areWeTimedOut := do
    let q ← get
    return q.member.any fun member => member.inTimeout q.database.now
  doWeHavePublishOverwrites := do
    return match (← get).member with
      | some member => member.canPublish
      | none => true
  doWeHaveReceiveOverwrites := do
    return match (← get).member with
      | some member => member.canReceive
      | none => true
  getChannelType := do return (← get).channelType
  getDefaultChannelPermissions := do return (← get).defaultChannelPermissions
  getOurChannelRoleOverrides := do return (← get).channelRoleOverrides
  doWeOwnTheChannel := do
    let q ← get
    return match q.channel with
      | some (.group _ owner _ _) => owner == q.perspective.id
      | some (.savedMessages _ user) => user == q.perspective.id
      | _ => false
  areWePartOfTheChannel := do
    let q ← get
    return match q.channel with
      | some (.directMessage _ recipients) => recipients.contains q.perspective.id
      | some (.group _ _ recipients _) => recipients.contains q.perspective.id
      | _ => false
  setRecipientAsUser := modify DatabasePermissionQuery.fetchRecipient
  setServerFromChannel := modify DatabasePermissionQuery.fetchServer

end SlogaBackend.Permissions
