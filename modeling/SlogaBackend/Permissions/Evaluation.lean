import SlogaBackend.Permissions.Query

/-!
# What a calculation comes to

A calculation against the query of the database asks, fetches and caches. This file says
what it comes to: `serverPermissions_eq` and `channelPermissions_eq` give the value as a
function of the documents it ends up with. What mute, deafen and timeout do to a value is a
mask (`limit_eq`), the same for every value.
-/

namespace SlogaBackend.Permissions

/-! ## Values of members -/

/-- The defaults of a server and the roles held there. -/
def heldPermissions (server : Server) (held : List String) : PermissionValue :=
  (byRank (heldRoles server held)).foldl PermissionValue.apply server.defaultPermissions

/-- What mute, deafen and timeout leave. -/
def Member.limit (member : Member) (now : Timestamp) (permissions : PermissionValue) :
    PermissionValue :=
  let permissions :=
    if member.canPublish then permissions
    else (PermissionValue.revoke permissions ChannelPermission.speak.value).revoke
      ChannelPermission.video.value
  let permissions :=
    if member.canReceive then permissions
    else PermissionValue.revoke permissions ChannelPermission.listen.value
  if member.inTimeout now then PermissionValue.restrict permissions allowInTimeout else permissions

def memberPermissions (now : Timestamp) (server : Server) (member : Member) : PermissionValue :=
  member.limit now (heldPermissions server member.roles)

section

variable (member : Member) (now : Timestamp) (permissions : PermissionValue)

theorem limit_eq :
    member.limit now permissions = permissions &&& member.limit now (BitVec.allOnes 64) := by
  unfold Member.limit PermissionValue.revoke PermissionValue.restrict
  cases member.canPublish <;> cases member.canReceive <;> cases member.inTimeout now <;>
    simp only [if_true, Bool.false_eq_true, if_false, BitVec.and_assoc, BitVec.allOnes_and,
      BitVec.and_allOnes]

theorem limit_viewChannel : (member.limit now permissions).hasChannelPermission .viewChannel =
      permissions.hasChannelPermission .viewChannel := by
  have hms : (member.limit now (BitVec.allOnes 64)).getLsbD
      ChannelPermission.viewChannel.position = true := by
    unfold Member.limit
    cases member.canPublish <;> cases member.canReceive <;> cases member.inTimeout now <;> decide
  rw [limit_eq, hasChannelPermission_eq, hasChannelPermission_eq, BitVec.getLsbD_and, hms,
    Bool.and_true]

end

def channelOverrides (server : Server) (held : List String) (permissions : PermissionValue) :
    Channel → PermissionValue
  | .textChannel _ _ defaultPermissions rolePermissions =>
    (byRank (heldOverrides server rolePermissions held)).foldl PermissionValue.apply
      (PermissionValue.apply permissions (DatabasePermissionQuery.orEmpty defaultPermissions))
  | .forum _ _ defaultPermissions rolePermissions =>
    (byRank (heldOverrides server rolePermissions held)).foldl PermissionValue.apply
      (PermissionValue.apply permissions (DatabasePermissionQuery.orEmpty defaultPermissions))
  | _ => PermissionValue.apply permissions ⟨0, 0⟩

def memberChannelPermissions (now : Timestamp) (server : Server) (channel : Channel)
    (member : Member) : PermissionValue :=
  let permissions :=
    channelOverrides server member.roles (memberPermissions now server member) channel
  let permissions :=
    if member.inTimeout now then PermissionValue.restrict permissions allowInTimeout
    else permissions
  if permissions.hasChannelPermission .viewChannel then permissions else 0

/-! ## Running a calculation -/

open PermissionQuery DatabasePermissionQuery

theorem run_bind_of {Q α β : Type} {x : StateM Q α} {f : α → StateM Q β} {q q' : Q} {a : α}
    (h : x.run q = (a, q')) : (x >>= f).run q = (f a).run q' := by
  show (f (x.run q).1).run (x.run q).2 = _
  rw [h]

section Runs
variable {q : DatabasePermissionQuery} {server : Server} {member : Member}

theorem run_privileged {b : Bool} (h : q.perspective.privileged = b) :
    StateT.run (areWePrivileged : StateM DatabasePermissionQuery Bool) q = (b, q) := by
  rw [← h]
  rfl

theorem run_owner {b : Bool} (hsrv : q.server = some server)
    (h : (server.owner == q.perspective.id) = b) :
    StateT.run (areWeServerOwner : StateM DatabasePermissionQuery Bool) q = (b, q) := by
  show (q.server.any _, q) = _
  rw [hsrv, ← h]
  rfl

theorem run_member {member : Option Member} (hsrv : q.server = some server)
    (h : q.member.or (q.database.members.findOne (server.id, q.perspective.id)) = member) :
    StateT.run (areWeAMember : StateM DatabasePermissionQuery Bool) q =
      (member.isSome, { q with member := member }) := by
  show q.isMember = _
  obtain ⟨database, perspective, user, channel, _, cached, mutualConnection⟩ := q
  obtain rfl : _ = some server := hsrv
  subst h
  unfold isMember
  dsimp only
  cases cached with
  | some => rfl
  | none =>
    rw [Option.none_or]
    cases database.members.findOne (server.id, perspective.id) <;> rfl

theorem run_calculateServerPermissions {member : Option Member}
    (hpriv : q.perspective.privileged = false) (hsrv : q.server = some server)
    (hown : (server.owner == q.perspective.id) = false)
    (hmb : q.member.or (q.database.members.findOne (server.id, q.perspective.id)) = member) :
    calculateServerPermissions.run q =
      (member.elim 0 (memberPermissions q.database.now server), { q with member := member }) := by
  unfold calculateServerPermissions
  rw [run_bind_of (run_privileged hpriv), if_neg false_ne_true,
    run_bind_of (run_owner hsrv hown), if_neg false_ne_true,
    run_bind_of (run_member hsrv hmb)]
  obtain ⟨database, perspective, user, channel, _, cached, mutualConnection⟩ := q
  obtain rfl : _ = some server := hsrv
  cases member <;> rfl

theorem run_channelType {type : ChannelType} (h : q.channelType = type) :
    StateT.run (getChannelType : StateM DatabasePermissionQuery ChannelType) q = (type, q) := by
  rw [← h]
  rfl

theorem run_fetchServer {q' : DatabasePermissionQuery} (h : q.fetchServer = q') :
    StateT.run (setServerFromChannel : StateM DatabasePermissionQuery Unit) q = ((), q') := by
  rw [← h]
  rfl

section

variable {channel : Channel} {id : String} (hch : q.channel = some channel)
  (hid : serverOf channel = some id)
include hch hid

theorem channelType_of_serverOf : q.channelType = .serverChannel := by
  unfold channelType
  rw [hch]
  cases channel <;> first | rfl | cases hid

theorem run_calculateChannelPermissions (hfet : q.fetchServer = { q with server := some server }) :
    (calculateChannelPermissions.run q).1 =
      if q.perspective.privileged || server.owner == q.perspective.id then grantAllSafe
      else (q.member.or (q.database.members.findOne (server.id, q.perspective.id))).elim 0
        (memberChannelPermissions q.database.now server channel) := by
  have hsrv : ({ q with server := some server } : DatabasePermissionQuery).server =
    some server := rfl
  have hty := run_channelType (channelType_of_serverOf hch hid)
  unfold calculateChannelPermissions
  cases hpriv : q.perspective.privileged with
  | true =>
    rw [run_bind_of (run_privileged hpriv)]
    rfl
  | false =>
    rw [run_bind_of (run_privileged hpriv), if_neg false_ne_true, run_bind_of hty]
    dsimp only
    rw [run_bind_of (run_fetchServer hfet)]
    cases hown : server.owner == q.perspective.id with
    | true =>
      rw [run_bind_of (run_owner hsrv hown)]
      rfl
    | false =>
      rw [run_bind_of (run_owner hsrv hown), if_neg false_ne_true,
        run_bind_of (run_member hsrv rfl)]
      cases q.member.or (q.database.members.findOne (server.id, q.perspective.id)) with
      | none => rfl
      | some member =>
        have hcal : calculateServerPermissions.run
            { q with server := some server, member := some member } =
              (memberPermissions q.database.now server member,
                { q with server := some server, member := some member }) :=
          run_calculateServerPermissions
            (q := { q with server := some server, member := some member })
            hpriv rfl hown rfl
        rw [Option.isSome_some, if_pos rfl, run_bind_of hcal]
        obtain ⟨database, perspective, user, _, _, cached, mutualConnection⟩ := q
        obtain rfl : _ = some channel := hch
        cases channel <;> first | rfl | cases hid

end

end Runs

/-! ## Calculations -/

def serverPermissions (db : Database) (user : User) (server : Server) : PermissionValue :=
  (calculateServerPermissions.run ((DatabasePermissionQuery.new db user).withServer server)).1

def channelPermissions (db : Database) (user : User) (channel : Channel) : PermissionValue :=
  (calculateChannelPermissions.run ((DatabasePermissionQuery.new db user).withChannel channel)).1

theorem serverPermissions_eq (db : Database) (user : User) (server : Server) :
    serverPermissions db user server =
      if user.privileged || server.owner == user.id then grantAllSafe
      else (db.members.findOne (server.id, user.id)).elim 0 (memberPermissions db.now server) := by
  unfold serverPermissions
  cases hpriv : user.privileged with
  | true =>
    unfold calculateServerPermissions
    rw [run_bind_of (run_privileged hpriv)]
    rfl
  | false =>
    cases hown : server.owner == user.id with
    | true =>
      unfold calculateServerPermissions
      rw [run_bind_of (run_privileged hpriv), if_neg false_ne_true,
        run_bind_of (run_owner rfl hown)]
      rfl
    | false =>
      rw [run_calculateServerPermissions hpriv rfl hown rfl]
      rfl

theorem channelPermissions_eq (db : Database) (user : User) {channel : Channel} {server : Server}
    (hsrv : (serverOf channel).bind db.servers.findOne = some server) :
    channelPermissions db user channel =
      if user.privileged || server.owner == user.id then grantAllSafe
      else (db.members.findOne (server.id, user.id)).elim 0
        (memberChannelPermissions db.now server channel) := by
  obtain ⟨id, hid, hfnd⟩ := bind_eq_some_iff.mp hsrv
  have hfet : ((new db user).withChannel channel).fetchServer =
      { (new db user).withChannel channel with server := some server } := by
    unfold fetchServer new withChannel
    dsimp only
    rw [bind_some, hid]
    dsimp only
    rw [if_neg (by simp), hfnd]
  exact run_calculateChannelPermissions (q := (new db user).withChannel channel) rfl hid hfet

end SlogaBackend.Permissions
