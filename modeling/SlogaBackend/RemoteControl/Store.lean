import SlogaBackend.Lib.Processes

/-!
# Remote-control grants

What Redis has of the grants of control over somebody's machine: the record under the channel and
the sharer, the pointer of the id to it, the pointer of the controller to it, the sharers of a
channel, and the index of when a grant expires. The authority itself is a permission at the SFU.

A ULID is new; here it is the number of the process that makes it.
-/

namespace SlogaBackend.RemoteControl

/-- The channel and the sharer. -/
abbrev GrantKey : Type := String × String

structure Grant where
  id : ℕ
  channelId : String
  node : String
  sharerId : String
  controllerId : String
  /-- The participant that holds the capability. -/
  controllerIdentity : String
  deriving DecidableEq

def Grant.key (grant : Grant) : GrantKey := (grant.channelId, grant.sharerId)

/-- A member of the expiry index, `grant:channel:sharer:identity`. -/
structure ExpiryMember where
  grantId : ℕ
  channelId : String
  sharerId : String
  controllerIdentity : String
  deriving DecidableEq

def Grant.expiryMember (grant : Grant) : ExpiryMember :=
  ⟨grant.id, grant.channelId, grant.sharerId, grant.controllerIdentity⟩

def ExpiryMember.key (member : ExpiryMember) : GrantKey := (member.channelId, member.sharerId)

/-- The last permission pushed to a participant. For which grant it was pushed is not told to the
SFU. -/
structure Permission where
  canPublishData : Bool
  grantId : ℕ
  deriving DecidableEq

structure Store where
  /-- `rc_grant:{channel}:{sharer}`. -/
  grants : Table GrantKey Grant
  /-- `rc_grant_id:{grant}`. -/
  grantIds : Table ℕ GrantKey
  /-- `rc_controller:{user}`. -/
  controllers : Table String GrantKey
  /-- The members of the sets `rc_channel_grants:{channel}`. -/
  channelGrants : List GrantKey
  /-- `rc_grant_expiry`, with the scores. -/
  expiry : Table ExpiryMember Int
  /-- The node a channel's room is on. -/
  nodes : Table String String
  /-- The participants' permissions, by room and identity. -/
  permissions : Table (String × String) Permission

inductive Call where
  | newUlid
  | getChannelNode (channel : String)
  | setNxGrant (grant : Grant)
  | getGrant (key : GrantKey)
  | delGrant (key : GrantKey)
  | setNxController (user : String) (key : GrantKey)
  | getController (user : String)
  | setGrantId (id : ℕ) (key : GrantKey)
  | getGrantId (id : ℕ)
  | saddGrant (key : GrantKey)
  | sremGrant (key : GrantKey)
  | existsGrants (channel : String)
  | smembersGrants (channel : String)
  | zadd (member : ExpiryMember) (score : Int)
  | zrem (member : ExpiryMember)
  /-- All members up to a score, or all. -/
  | zrangeByScore (until? : Option Int)
  /-- One DEL of the record and the two pointers. -/
  | delRecords (grant : Grant)
  /-- `update_permissions_identity`. -/
  | updatePermissions (grant : Grant) (canPublishData : Bool)
  | removeIdentity (channel identity : String)
  deriving DecidableEq

abbrev Reply : Call → Type
  | .newUlid => ℕ
  | .getChannelNode _ => Option String
  | .setNxGrant _ => Bool
  | .getGrant _ => Option Grant
  | .delGrant _ => Unit
  | .setNxController .. => Bool
  | .getController _ => Option GrantKey
  | .setGrantId .. => Unit
  | .getGrantId _ => Option GrantKey
  | .saddGrant _ => Unit
  | .sremGrant _ => Unit
  | .existsGrants _ => Bool
  | .smembersGrants _ => List String
  | .zadd .. => Unit
  | .zrem _ => Unit
  | .zrangeByScore _ => List ExpiryMember
  | .delRecords _ => Unit
  | .updatePermissions .. => Unit
  | .removeIdentity .. => Unit

def perform (pid : ℕ) : (c : Call) → Store → Store × Reply c
  | .newUlid, s => (s, pid)
  | .getChannelNode channel, s => (s, s.nodes.get channel)
  | .setNxGrant grant, s =>
    match s.grants.get grant.key with
    | some _ => (s, false)
    | none => ({ s with grants := s.grants.insert grant.key grant }, true)
  | .getGrant key, s => (s, s.grants.get key)
  | .delGrant key, s => ({ s with grants := s.grants.erase key }, ())
  | .setNxController user key, s =>
    match s.controllers.get user with
    | some _ => (s, false)
    | none => ({ s with controllers := s.controllers.insert user key }, true)
  | .getController user, s => (s, s.controllers.get user)
  | .setGrantId id key, s => ({ s with grantIds := s.grantIds.insert id key }, ())
  | .getGrantId id, s => (s, s.grantIds.get id)
  | .saddGrant key, s => ({ s with channelGrants := s.channelGrants.insert key }, ())
  | .sremGrant key, s =>
    ({ s with channelGrants := s.channelGrants.filter fun other => other ≠ key }, ())
  | .existsGrants channel, s => (s, s.channelGrants.any fun key => key.1 = channel)
  | .smembersGrants channel, s =>
    (s, (s.channelGrants.filter fun key => key.1 = channel).map Prod.snd)
  | .zadd member score, s => ({ s with expiry := s.expiry.insert member score }, ())
  | .zrem member, s => ({ s with expiry := s.expiry.erase member }, ())
  | .zrangeByScore until?, s =>
    (s, s.expiry.keys.filter fun member =>
      match until?, s.expiry.get member with
      | some bound, some score => score ≤ bound
      | _, _ => true)
  | .delRecords grant, s =>
    ({ s with
      grants := s.grants.erase grant.key
      grantIds := s.grantIds.erase grant.id
      controllers := s.controllers.erase grant.controllerId }, ())
  | .updatePermissions grant canPublishData, s =>
    let participant := (grant.channelId, grant.controllerIdentity)
    ({ s with permissions := s.permissions.insert participant ⟨canPublishData, grant.id⟩ }, ())
  | .removeIdentity channel identity, s =>
    ({ s with permissions := s.permissions.erase (channel, identity) }, ())

end SlogaBackend.RemoteControl
