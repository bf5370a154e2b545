import SlogaBackend.Permissions.IterationOrder

/-!
# Permissions in bulk

`BulkDatabasePermissionQuery` works out who of many members can see a channel of a server.
It has a calculation of its own: no mute or deafen, the timeout before the overrides of the
channel and not after them, and no last step that takes everything from whoever cannot see
the channel.

None of that touches the bit that is asked for. `bulk_visibility` is that at the bit of
`ViewChannel` the two calculations come to the same, and `members_can_see_channel_eq` carries
it to the map that the query answers with.
-/

namespace SlogaBackend.Permissions

/-! ## The query -/

structure BulkDatabasePermissionQuery where
  database : Database
  /-- `none` when the server could not be fetched. -/
  server : Option Server
  channel : Option Channel
  users : Option (List User)
  members : Option (List Member)
  cachedMemberPerms : Option (Table String PermissionValue)

namespace BulkDatabasePermissionQuery

def new (database : Database) (server : Server) : BulkDatabasePermissionQuery :=
  ⟨database, some server, none, none, none, none⟩

def withChannel (query : BulkDatabasePermissionQuery) (channel : Channel) :
    BulkDatabasePermissionQuery :=
  { query with channel := some channel }

def withMembers (query : BulkDatabasePermissionQuery) (members : List Member) :
    BulkDatabasePermissionQuery :=
  { query with members := some members, cachedMemberPerms := none, users := none }

def withUsers (query : BulkDatabasePermissionQuery) (users : List User) :
    BulkDatabasePermissionQuery :=
  { query with users := some users, cachedMemberPerms := none, members := none }

end BulkDatabasePermissionQuery

/-- `fetch_users`: each user once. -/
def Database.fetchUsers (db : Database) (ids : List String) : List User :=
  ids.dedup.filterMap db.users.findOne

/-- The members of `server` among `ids`. -/
def Database.fetchMembers (db : Database) (server : String) (ids : List String) : List Member :=
  ids.filterMap fun id => db.members.findOne (server, id)

/-! ## The calculation -/

namespace Bulk

/-- The bulk path's own computation for one member. -/
def calculateServerPermissions (now : Timestamp) (server : Server) (user : User)
    (member : Member) : PermissionValue :=
  if user.privileged || server.owner == user.id then grantAllSafe
  else
    let permissions :=
      (byRank (heldRoles server member.roles)).foldl PermissionValue.apply server.defaultPermissions
    if member.inTimeout now then PermissionValue.restrict permissions allowInTimeout
    else permissions

/-- The value of one user. -/
def memberPermission (now : Timestamp) (server : Server)
    (rolePermissions : Table String OverrideField) (defaultPermissions : Option OverrideField)
    (user : User) : Option Member → PermissionValue
  | none => 0
  | some member =>
    if user.privileged then grantAllSafe
    else if user.id == server.owner then grantAllSafe
    else
      let permission := calculateServerPermissions now server user member
      let permission :=
        match defaultPermissions with
        | some defaults => PermissionValue.apply permission defaults.toOverride
        | none => permission
      (byRank (heldOverrides server rolePermissions member.roles)).foldl PermissionValue.apply
        permission

end Bulk

namespace BulkDatabasePermissionQuery

/-- The permissions of members in a server channel. Whatever is missing, nobody gets
anything; a query with neither users nor members panics. -/
def calculateMembersPermissions (query : BulkDatabasePermissionQuery) :
    Option (Table String PermissionValue) :=
  match query.channel.bind Channel.overrides with
  | none => some ∅
  | some (rolePermissions, defaultPermissions) =>
    match query.server with
    | none => some ∅
    | some server =>
      -- the one of the two lists that is missing is fetched for the other
      match query.users.or (query.members.map fun members =>
          query.database.fetchUsers (members.map Member.user)) with
      | none => none
      | some users =>
        let members :=
          query.members.getD (query.database.fetchMembers server.id (users.map User.id))
        let byUser := Table.ofEntries (members.map fun member => (member.user, member))
        some (Table.ofEntries (users.map fun user =>
          (user.id, Bulk.memberPermission query.database.now server rolePermissions
            defaultPermissions user (byUser.get user.id))))

def membersCanSeeChannel (query : BulkDatabasePermissionQuery) : Option (Table String Bool) :=
  match query.cachedMemberPerms with
  | some perms => some (canSee perms)
  | none => query.calculateMembersPermissions.map canSee
where
  canSee (perms : Table String PermissionValue) : Table String Bool :=
    Table.ofEntries (perms.entries.map fun entry =>
      (entry.1, entry.2.hasChannelPermission .viewChannel))

/-- What `members_can_see_channel` returns for a user. -/
def seenBy (query : BulkDatabasePermissionQuery) (id : String) : Option Bool :=
  query.membersCanSeeChannel.bind fun seen => seen.get id

end BulkDatabasePermissionQuery

/-! ## At the bit of `ViewChannel` -/

theorem nothing_viewChannel :
    PermissionValue.hasChannelPermission 0 .viewChannel = false := by decide

theorem restrict_viewChannel (permissions : PermissionValue) :
    (permissions.restrict allowInTimeout).hasChannelPermission .viewChannel =
      permissions.hasChannelPermission .viewChannel := by
  have hall : allowInTimeout.getLsbD ChannelPermission.viewChannel.position = true := by decide
  unfold PermissionValue.restrict
  rw [hasChannelPermission_eq, hasChannelPermission_eq, BitVec.getLsbD_and, hall, Bool.and_true]

theorem apply_viewChannel {permissions permissions' : PermissionValue}
    (h : permissions.hasChannelPermission .viewChannel =
      permissions'.hasChannelPermission .viewChannel) (v : Override PermissionValue) :
    (permissions.apply v).hasChannelPermission .viewChannel =
      (permissions'.apply v).hasChannelPermission .viewChannel := by
  rw [hasChannelPermission_eq, hasChannelPermission_eq] at h ⊢
  rw [getLsbD_apply _ _ (by decide), getLsbD_apply _ _ (by decide), h]

theorem foldl_viewChannel (l : List (Override PermissionValue)) :
    ∀ {permissions permissions' : PermissionValue}, permissions.hasChannelPermission .viewChannel =
        permissions'.hasChannelPermission .viewChannel →
      (l.foldl PermissionValue.apply permissions).hasChannelPermission .viewChannel =
        (l.foldl PermissionValue.apply permissions').hasChannelPermission .viewChannel := by
  induction l with
  | nil => exact fun h => h
  | cons v l ih => exact fun h => ih (apply_viewChannel h v)

theorem ite_viewChannel (permissions : PermissionValue) :
    (if permissions.hasChannelPermission .viewChannel then permissions
      else 0).hasChannelPermission .viewChannel =
      permissions.hasChannelPermission .viewChannel := by
  split
  · rfl
  · rename_i hlac
    rw [Bool.not_eq_true] at hlac
    rw [hlac, nothing_viewChannel]

theorem apply_orEmpty (permissions : PermissionValue) (defaultPermissions : Option OverrideField) :
    permissions.apply (DatabasePermissionQuery.orEmpty defaultPermissions) =
      match defaultPermissions with
      | some defaults => permissions.apply defaults.toOverride
      | none => permissions := by
  cases defaultPermissions with
  | some => rfl
  | none =>
    show (permissions ||| 0#64) &&& ~~~0#64 = permissions
    rw [BitVec.or_zero, BitVec.not_zero, BitVec.and_allOnes]

variable {rolePermissions : Table String OverrideField} {defaultPermissions : Option OverrideField}

theorem channelOverrides_eq {channel : Channel}
    (h : channel.overrides = some (rolePermissions, defaultPermissions)) (server : Server)
    (held : List String) (permissions : PermissionValue) :
    channelOverrides server held permissions channel =
      (byRank (heldOverrides server rolePermissions held)).foldl PermissionValue.apply
        (permissions.apply (DatabasePermissionQuery.orEmpty defaultPermissions)) := by
  cases channel <;> cases h <;> rfl

/-- **One member.** The calculation in bulk and the one for a channel agree on who can see the
channel. -/
theorem memberPermission_viewChannel {channel : Channel}
    (hch : channel.overrides = some (rolePermissions, defaultPermissions)) (now : Timestamp)
    (server : Server) (user : User) (member : Member) :
    (Bulk.memberPermission now server rolePermissions defaultPermissions user
        (some member)).hasChannelPermission .viewChannel =
      (if user.privileged || server.owner == user.id then grantAllSafe
        else memberChannelPermissions now server channel member).hasChannelPermission
          .viewChannel := by
  unfold Bulk.memberPermission
  rw [Bool.beq_comm (a := user.id)]
  cases hpriv : user.privileged with
  | true => rfl
  | false =>
    cases hown : server.owner == user.id with
    | true => rfl
    | false =>
      have hsrv : (Bulk.calculateServerPermissions now server user
          member).hasChannelPermission .viewChannel =
            (memberPermissions now server member).hasChannelPermission .viewChannel := by
        unfold Bulk.calculateServerPermissions memberPermissions
        rw [limit_viewChannel, hpriv, hown]
        show (if member.inTimeout now then _ else _ : PermissionValue).hasChannelPermission _ = _
        split
        · exact restrict_viewChannel _
        · rfl
      simp
      unfold memberChannelPermissions
      rw [ite_viewChannel, channelOverrides_eq hch, ← apply_orEmpty]
      split
      · rw [restrict_viewChannel]
        exact foldl_viewChannel _ (apply_viewChannel hsrv _)
      · exact foldl_viewChannel _ (apply_viewChannel hsrv _)

/-! ## The answer for one user -/

namespace BulkDatabasePermissionQuery

theorem get_canSee {perms : Table String PermissionValue} {id : String} {value : PermissionValue}
    (h : perms.get id = some value) : (membersCanSeeChannel.canSee perms).get id =
      some (value.hasChannelPermission .viewChannel) := by
  refine Table.get_ofEntries (mem_map.mpr ⟨⟨id, value⟩, get_eq_some_iff.mp h, rfl⟩) ?_
  intro entry hent hkey
  obtain ⟨⟨id', value'⟩, hmem, rfl⟩ := mem_map.mp hent
  obtain rfl : id' = id := hkey
  rw [get_eq_some_iff.mpr hmem] at h
  rw [some.inj h]

section Answers

variable {db : Database} {server : Server} {channel : Channel}
  {rolePermissions : Table String OverrideField} {defaultPermissions : Option OverrideField}
  {user : User} {users : List User}

theorem seenBy_of_listed (query : BulkDatabasePermissionQuery)
    (hcac : query.cachedMemberPerms = none)
    (hch : query.channel.bind Channel.overrides = some (rolePermissions, defaultPermissions))
    (hsrv : query.server = some server) (husers : query.users.or (query.members.map fun members =>
      query.database.fetchUsers (members.map Member.user)) = some users) (hmem : user ∈ users)
    (hsm : ∀ u ∈ users, u.id = user.id → u = user) {member : Option Member}
    (hmb : (Table.ofEntries ((query.members.getD (query.database.fetchMembers server.id
      (users.map User.id))).map fun member => (member.user, member))).get user.id = member) :
    query.seenBy user.id =
      some ((Bulk.memberPermission query.database.now server rolePermissions defaultPermissions user
        member).hasChannelPermission .viewChannel) := by
  unfold seenBy membersCanSeeChannel calculateMembersPermissions
  rw [hcac, hch, hsrv]
  rw [husers]
  refine get_canSee ?_
  rw [← hmb]
  refine Table.get_ofEntries (mem_map.mpr ⟨user, hmem, rfl⟩) fun entry hent hkey => ?_
  obtain ⟨u, hu, rfl⟩ := mem_map.mp hent
  rw [hsm u hu hkey]

theorem get_fetchMembers {ids : List String} {id : String} (hid : id ∈ ids) (server : String) :
    (Table.ofEntries ((db.fetchMembers server ids).map fun member => (member.user, member))).get id =
      db.members.findOne (server, id) := by
  have hfet : ∀ entry ∈ (db.fetchMembers server ids).map fun member => (member.user, member),
      entry.1 = id → db.members.findOne (server, id) = some entry.2 := by
    intro entry hent hkey
    obtain ⟨member, hmb, rfl⟩ := mem_map.mp hent
    obtain ⟨id', _, hfnd⟩ := mem_filterMap.mp hmb
    have huse : member.user = id' := congrArg Prod.snd (key_of_findOne hfnd)
    rw [← hkey, huse]
    exact hfnd
  cases hmb : db.members.findOne (server, id) with
  | none =>
    refine Table.get_ofEntries_of_notMem fun entry hent hkey => ?_
    rw [hfet entry hent hkey] at hmb
    cases hmb
  | some member =>
    have huse : member.user = id := congrArg Prod.snd (key_of_findOne hmb)
    refine Table.get_ofEntries (mem_map.mpr ⟨member, ?_, by rw [huse]⟩) ?_
    · exact mem_filterMap.mpr ⟨id, hid, hmb⟩
    · intro entry hent hkey
      rw [hfet entry hent hkey] at hmb
      exact some.inj hmb

section

variable (hch : channel.overrides = some (rolePermissions, defaultPermissions))
include hch

theorem seenBy_withUsers (hmem : user ∈ users) (hsm : ∀ u ∈ users, u.id = user.id → u = user) :
    (((new db server).withChannel channel).withUsers users).seenBy user.id =
      some ((Bulk.memberPermission db.now server rolePermissions defaultPermissions user
        (db.members.findOne (server.id, user.id))).hasChannelPermission .viewChannel) :=
  seenBy_of_listed (((new db server).withChannel channel).withUsers users) rfl hch rfl rfl hmem
    hsm (get_fetchMembers (mem_map_of_mem hmem) server.id)

theorem seenBy_withMembers
    (huse : db.users.findOne user.id = some user) {members : List Member} {member : Member}
    (hmem : member ∈ members) (hid : member.user = user.id)
    (hsm : ∀ m ∈ members, m.user = user.id → m = member) :
    (((new db server).withChannel channel).withMembers members).seenBy user.id =
      some ((Bulk.memberPermission db.now server rolePermissions defaultPermissions user
        (some member)).hasChannelPermission .viewChannel) := by
  refine seenBy_of_listed (((new db server).withChannel channel).withMembers members) rfl hch
    rfl rfl ?_ ?_ ?_
  · refine mem_filterMap.mpr ⟨user.id, mem_dedup.mpr ?_, huse⟩
    exact mem_map.mpr ⟨member, hmem, hid⟩
  · intro u hu heq
    obtain ⟨id, _, hfnd⟩ := mem_filterMap.mp hu
    rw [← key_of_findOne hfnd, heq] at hfnd
    exact some.inj (hfnd.symm.trans huse)
  · refine Table.get_ofEntries (mem_map.mpr ⟨member, hmem, by rw [hid]⟩) ?_
    intro entry hent hkey
    obtain ⟨m, hm, rfl⟩ := mem_map.mp hent
    exact hsm m hm hkey

end

end Answers

end BulkDatabasePermissionQuery

section Agreement

open BulkDatabasePermissionQuery

variable {db : Database} {server server' : Server} {channel channel' : Channel}

theorem overrides_of_agrees {channel channel' : Channel} (h : channel.Agrees channel')
    (hove : channel.overrides.isSome = true) : ∃ rolePermissions defaultPermissions,
      channel'.overrides = some (rolePermissions, defaultPermissions) := by
  cases channel with
  | textChannel | forum =>
    obtain ⟨_, _, rfl⟩ := h
    exact ⟨_, _, rfl⟩
  | _ => cases hove

theorem memberPermission_agrees {rolePermissions : Table String OverrideField}
    {defaultPermissions : Option OverrideField} (user : User) {member : Member}
    (hsrv : (DatabasePermissionQuery.serverOf channel).bind db.servers.findOne = some server)
    (hran : server.DistinctRanks) (hsrv' : server.Agrees server') (hch' : channel.Agrees channel')
    (hove : channel'.overrides = some (rolePermissions, defaultPermissions))
    (hmb : db.members.findOne (server.id, user.id) = some member) :
    (Bulk.memberPermission db.now server' rolePermissions defaultPermissions user
        (some member)).hasChannelPermission .viewChannel =
      (channelPermissions db user channel).hasChannelPermission .viewChannel := by
  rw [memberPermission_viewChannel hove, channelPermissions_eq db user hsrv, hmb,
    ← hsrv'.owner, ← memberChannelPermissions_congr hsrv' hran db.now hch']
  rfl

/-- **Bulk and single permissions agree on who can see a channel.** Both calculations have
their own copies of the server and of the channel, iterated in their own order. -/
theorem members_can_see_channel_agrees (user : User)
    (hserver : (DatabasePermissionQuery.serverOf channel).bind db.servers.findOne = some server)
    (hranks : server.DistinctRanks) (hoverrides : channel.overrides.isSome = true)
    (hserver' : server.Agrees server') (hchannel' : channel.Agrees channel') :
    (∀ member, db.members.findOne (server.id, user.id) = some member →
      (∀ users : List User, user ∈ users → (∀ u ∈ users, u.id = user.id → u = user) →
        (((new db server').withChannel channel').withUsers users).seenBy user.id =
          some ((channelPermissions db user channel).hasChannelPermission .viewChannel)) ∧
      (∀ members : List Member, db.users.findOne user.id = some user → member ∈ members →
        (∀ m ∈ members, m.user = user.id → m = member) →
        (((new db server').withChannel channel').withMembers members).seenBy user.id =
          some ((channelPermissions db user channel).hasChannelPermission .viewChannel))) ∧
    (db.members.findOne (server.id, user.id) = none → user.privileged = false →
      server.owner ≠ user.id →
      (∀ users : List User, user ∈ users → (∀ u ∈ users, u.id = user.id → u = user) →
        (((new db server').withChannel channel').withUsers users).seenBy user.id = some false) ∧
      (channelPermissions db user channel).hasChannelPermission .viewChannel = false) := by
  obtain ⟨rolePermissions, defaultPermissions, hfound⟩ := overrides_of_agrees hchannel' hoverrides
  refine ⟨fun member hmember => ⟨?_, ?_⟩, fun hmember hprivileged howner => ⟨?_, ?_⟩⟩
  · intro users hmem hsame
    rw [seenBy_withUsers hfound hmem hsame, ← hserver'.id, hmember,
      memberPermission_agrees user hserver hranks hserver' hchannel' hfound hmember]
  · intro members huser hmem hsame
    have hid : member.user = user.id := congrArg Prod.snd (key_of_findOne hmember)
    rw [seenBy_withMembers hfound huser hmem hid hsame,
      memberPermission_agrees user hserver hranks hserver' hchannel' hfound hmember]
  · intro users hmem hsame
    rw [seenBy_withUsers hfound hmem hsame, ← hserver'.id, hmember]
    exact congrArg some nothing_viewChannel
  · have hno : ¬(user.privileged || server.owner == user.id) = true := by
      rw [hprivileged, Bool.false_or, beq_iff_eq]
      exact howner
    rw [channelPermissions_eq db user hserver, if_neg hno, hmember]
    exact nothing_viewChannel

/-! ## An example -/

/-- One role hides the channel and a higher one, which is listed first, shows it again. -/
def sampleServer (roles : Collection Role.id) : Server :=
  ⟨"S", "O", ["C"], roles, defaultPermission⟩

def sampleRoles : Collection Role.id :=
  (Collection.empty.put ⟨"A", "a", .empty, 1⟩).put ⟨"B", "b", .empty, 0⟩

def sampleRolesReversed : Collection Role.id :=
  (Collection.empty.put ⟨"B", "b", .empty, 0⟩).put ⟨"A", "a", .empty, 1⟩

def sampleChannel (rolePermissions : Table String OverrideField) : Channel :=
  .textChannel "C" "S" none rolePermissions

def sampleOverrides : Table String OverrideField :=
  Table.ofEntries [("A", ⟨0, ChannelPermission.viewChannel.value⟩),
    ("B", ⟨ChannelPermission.viewChannel.value, 0⟩)]

def sampleUser (id : String) : User := ⟨id, false, none, []⟩

/-- A member who is muted and in timeout, and holds a role the server has not got. -/
def sampleMember : Member := ⟨"S", "U", ["A", "B", "gone"], some 9, false, true⟩

def sampleDatabase : Database where
  users := (Collection.empty.put (sampleUser "U")).put (sampleUser "V")
  servers := Collection.empty.put (sampleServer sampleRoles)
  channels := Collection.empty.put (sampleChannel sampleOverrides)
  members := Collection.empty.put sampleMember
  now := 0

theorem members_can_see_channel_agrees_muted :
    (((new sampleDatabase (sampleServer sampleRolesReversed)).withChannel
      (sampleChannel sampleOverrides)).withMembers [sampleMember]).seenBy "U" =
        some ((channelPermissions sampleDatabase (sampleUser "U")
          (sampleChannel sampleOverrides)).hasChannelPermission .viewChannel) ∧
    (((new sampleDatabase (sampleServer sampleRolesReversed)).withChannel
      (sampleChannel sampleOverrides)).withUsers [sampleUser "U", sampleUser "V"]).seenBy "V" =
        some false := by
  have hserver : (DatabasePermissionQuery.serverOf (sampleChannel sampleOverrides)).bind
    sampleDatabase.servers.findOne = some (sampleServer sampleRoles) := by decide
  have hagrees : (sampleServer sampleRoles).Agrees (sampleServer sampleRolesReversed) :=
    ⟨rfl, rfl, rfl, by decide⟩
  refine ⟨?_, ?_⟩
  · exact ((members_can_see_channel_agrees (sampleUser "U") hserver (by decide) rfl hagrees
      (Channel.Agrees.refl _)).1 sampleMember (by decide)).2 [sampleMember] (by decide)
        (by decide) (by decide)
  · exact ((members_can_see_channel_agrees (sampleUser "V") hserver (by decide) rfl hagrees
      (Channel.Agrees.refl _)).2 (by decide) rfl (by decide)).1 [sampleUser "U", sampleUser "V"]
        (by decide) (by decide)

end Agreement
end SlogaBackend.Permissions
