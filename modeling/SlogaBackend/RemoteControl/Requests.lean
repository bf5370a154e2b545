import SlogaBackend.RemoteControl.Store

/-!
# The requests on grants

`control_respond` accepts an offer: the record first, then the capability, then a look whether the
record is still there. Whoever ends a grant revokes first and deletes then. Everybody ends the
grant that they have read.

No call fails here. The events, the audit rows and the offers are left out, and what the checks
before say is part of a request. The node of a room is where its participants are.
-/

namespace SlogaBackend.RemoteControl

inductive ControlError where
  | notInVoiceChannel
  | remoteControlGrantActive
  | notFound
  | missingPermission
  | failedValidation
  deriving DecidableEq

abbrev Program (α : Type) := Prog ControlError Call Reply α

inductive RemoteControlGrantOutcome where
  | created
  | sharerBusy
  | controllerBusy
  deriving DecidableEq

def heartbeatTtlSecs : Int := 8

def initialTtlSecs : Int := 2 * heartbeatTtlSecs

def createRemoteControlGrant (nowMs : Int) (grant : Grant) : Program RemoteControlGrantOutcome := do
  let claimed ← op (Call.setNxGrant grant)
  if !claimed then return .sharerBusy
  else
    let _ ← op (Call.zadd grant.expiryMember (nowMs + initialTtlSecs * 1000))
    let claimed ← op (Call.setNxController grant.controllerId grant.key)
    if !claimed then
      let _ ← op (Call.zrem grant.expiryMember)
      let _ ← op (Call.delGrant grant.key)
      return .controllerBusy
    else
      let _ ← op (Call.setGrantId grant.id grant.key)
      let _ ← op (Call.saddGrant grant.key)
      return .created

def fetchRemoteControlGrant (channel sharer : String) : Program (Option Grant) :=
  op (Call.getGrant (channel, sharer))

def fetchRemoteControlGrantById (id : ℕ) : Program (Option Grant) := do
  let pointer ← op (Call.getGrantId id)
  match pointer with
  | none => return none
  | some key =>
    let grant ← op (Call.getGrant key)
    return grant.filter fun grant => grant.id = id

def fetchRemoteControlGrantForController (user : String) : Program (Option Grant) := do
  let pointer ← op (Call.getController user)
  match pointer with
  | none => return none
  | some key =>
    let grant ← op (Call.getGrant key)
    return grant.filter fun grant => grant.controllerId = user

def endRemoteControlGrant (grant : Grant) : Program Unit := do
  let _ ← op (Call.updatePermissions grant false)
  let _ ← op (Call.delRecords grant)
  let _ ← op (Call.sremGrant grant.key)
  op (Call.zrem grant.expiryMember)

/-! ## Routes and hooks -/

def controlAccept (channel sharer controller identity : String) (nowMs : Int) : Program Unit := do
  let node ← op (Call.getChannelNode channel)
  match node with
  | none => check (.error .notInVoiceChannel)
  | some node =>
    let id ← op Call.newUlid
    let grant : Grant := ⟨id, channel, node, sharer, controller, identity⟩
    let outcome ← createRemoteControlGrant nowMs grant
    if outcome ≠ .created then check (.error .remoteControlGrantActive)
    else
      let _ ← op (Call.updatePermissions grant true)
      let found ← fetchRemoteControlGrantById grant.id
      if found.isNone then
        -- torn down while the SFU was asked
        let _ ← op (Call.updatePermissions grant false)
        check (.error .remoteControlGrantActive)
      else return ()

/-- `control_release`; somebody else needs `MuteMembers`. -/
def controlRelease (channel : String) (id : ℕ) (user : String) (mayMute : Bool) : Program Unit := do
  let found ← fetchRemoteControlGrantById id
  match found with
  | none => check (.error .notFound)
  | some grant =>
    if grant.channelId ≠ channel then check (.error .notFound)
    else if user ≠ grant.sharerId ∧ user ≠ grant.controllerId ∧ mayMute = false then
      check (.error .missingPermission)
    else endRemoteControlGrant grant

def controlHeartbeat (channel user : String) (publishing : Bool) (nowMs : Int) : Program Unit := do
  let found ← fetchRemoteControlGrant channel user
  match found with
  | none => check (.error .notFound)
  | some grant =>
    if publishing then op (Call.zadd grant.expiryMember (nowMs + heartbeatTtlSecs * 1000))
    else
      let _ ← endRemoteControlGrant grant
      check (.error .failedValidation)

/-- Which controller grants of a user a release ends. -/
inductive ControllerRelease where
  | wholeUser
  | connection (identity : String)

def ControllerRelease.ends (controller : ControllerRelease) (grant : Grant) : Bool :=
  match controller with
  | .wholeUser => true
  | .connection identity => identity = grant.controllerIdentity

/-- The grant is ended if there is one. -/
def endFound : Option Grant → Program Unit
  | some grant => endRemoteControlGrant grant
  | none => return ()

def releaseRemoteControl (channel user : String) (controller : ControllerRelease) : Program Unit := do
  let any ← op (Call.existsGrants channel)
  if !any then return ()
  else
    let shared ← fetchRemoteControlGrant channel user
    let _ ← endFound shared
    let controlled ← fetchRemoteControlGrantForController user
    endFound (controlled.filter fun grant => grant.channelId = channel && controller.ends grant)

def fetchEach (channel : String) : List String → Program (List Grant)
  | [] => return []
  | sharer :: sharers => do
    let grant ← fetchRemoteControlGrant channel sharer
    let grants ← fetchEach channel sharers
    return grant.toList ++ grants

def endEach : List Grant → Program Unit
  | [] => return ()
  | grant :: grants => do
    let _ ← endRemoteControlGrant grant
    endEach grants

def releaseRemoteControlForChannel (channel : String) : Program Unit := do
  let sharers ← op (Call.smembersGrants channel)
  let grants ← fetchEach channel sharers
  endEach grants

/-- What the reaper does with a member whose grant it does not find. -/
def failClosed (member : ExpiryMember) : Program Unit := do
  let node ← op (Call.getChannelNode member.channelId)
  match node with
  | none => op (Call.zrem member)
  | some _ =>
    let _ ← op (Call.removeIdentity member.channelId member.controllerIdentity)
    op (Call.zrem member)

def reapEach : List ExpiryMember → Program Unit
  | [] => return ()
  | member :: members => do
    let found ← fetchRemoteControlGrantById member.grantId
    let _ ← match found with
      | some grant => endRemoteControlGrant grant
      | none => failClosed member
    reapEach members

/-- A sweep of the reaper: of what has expired, or of everything when remote control is off. -/
def reap (nowMs : Option Int) : Program Unit := do
  let members ← op (Call.zrangeByScore nowMs)
  reapEach members

inductive Request where
  | accept (channel sharer controller identity : String) (nowMs : Int)
  | release (channel : String) (id : ℕ) (user : String) (mayMute : Bool)
  | heartbeat (channel user : String) (publishing : Bool) (nowMs : Int)
  | releaseUser (channel user : String) (controller : ControllerRelease)
  | releaseChannel (channel : String)
  | reap (nowMs : Option Int)

def body : Request → Program Unit
  | .accept channel sharer controller identity nowMs =>
    controlAccept channel sharer controller identity nowMs
  | .release channel id user mayMute => controlRelease channel id user mayMute
  | .heartbeat channel user publishing nowMs => controlHeartbeat channel user publishing nowMs
  | .releaseUser channel user controller => releaseRemoteControl channel user controller
  | .releaseChannel channel => releaseRemoteControlForChannel channel
  | .reap nowMs => reap nowMs

end SlogaBackend.RemoteControl
