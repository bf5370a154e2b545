import SlogaBackend.Permissions.Roles

/-!
# Editing roles

Three requests change what members of a server may do: setting the override of a role, setting
the defaults, and deleting a role. Each checks the difference of two words against the
permissions of whoever asks. What it comes to for a member is a fold over all the roles of
that member, in rank order.

Every accepted request is shown to grant nothing that the asker lacks (`role_edit_grants_own`).
The argument is at one bit the asker lacks. `setRolePermission_ok` and its siblings say what an
accepted request has checked and written; at that bit the roles of a member are then changed
only in ways that `Override.Within` allows, and the fold grants no more.
-/

namespace SlogaBackend.Permissions

open Checks

/-! ## Writes -/

def Role.withPermissions (permissions : OverrideField) (role : Role) : Role :=
  { role with permissions := permissions }

theorem Role.withPermissions_id (permissions : OverrideField) (role : Role) :
    (role.withPermissions permissions).id = role.id := rfl

def Server.withRolePermissions (roleId : String) (permissions : OverrideField) (server : Server) :
    Server :=
  { server with
    roles := (server.roles.updateOne roleId (fun _ => true) (Role.withPermissions permissions)
      (Role.withPermissions_id permissions)).1 }

theorem Server.withRolePermissions_id (roleId : String) (permissions : OverrideField)
    (server : Server) : (server.withRolePermissions roleId permissions).id = server.id := rfl

def Server.withDefaultPermissions (permissions : BitVec 64) (server : Server) : Server :=
  { server with defaultPermissions := permissions }

theorem Server.withDefaultPermissions_id (permissions : BitVec 64) (server : Server) :
    (server.withDefaultPermissions permissions).id = server.id := rfl

def Member.withoutRole (roleId : String) (member : Member) : Member :=
  { member with roles := member.roles.filter fun id => id != roleId }

theorem Member.withoutRole_id (roleId : String) (member : Member) :
    (member.withoutRole roleId).id = member.id := rfl

/-- Unset the override for a role. -/
def Channel.withoutRole (roleId : String) : Channel → Channel
  | .textChannel id server defaultPermissions rolePermissions =>
    .textChannel id server defaultPermissions (rolePermissions.erase roleId)
  | .forum id server defaultPermissions rolePermissions =>
    .forum id server defaultPermissions (rolePermissions.erase roleId)
  | channel => channel

theorem Channel.withoutRole_id (roleId : String) (channel : Channel) :
    (channel.withoutRole roleId).id = channel.id := by
  cases channel <;> rfl

/-- Rewrite the document of a server. -/
def Database.updateServer (db : Database) (serverId : String) (update : Server → Server)
    (hkey : ∀ server, (update server).id = server.id) : Database :=
  { db with servers := (db.servers.updateOne serverId (fun _ => true) update hkey).1 }

/-- `delete_role`: from the server, from its members and from its channels. -/
def Database.deleteRole (db : Database) (serverId roleId : String) : Database :=
  { db with
    servers := (db.servers.updateOne serverId (fun _ => true) (Server.removeRole roleId)
      (Server.removeRole_id roleId)).1
    members := db.members.updateMany (fun member => member.server == serverId)
      (Member.withoutRole roleId) (Member.withoutRole_id roleId)
    channels := db.channels.updateMany
      (fun channel => DatabasePermissionQuery.serverOf channel == some serverId)
      (Channel.withoutRole roleId) (Channel.withoutRole_id roleId) }

/-! ## Requests -/

/-- What is calculated for whoever asks, and the rank found on the way. -/
def asker (db : Database) (user : User) (server : Server) : PermissionValue × Int :=
  let (permissions, query) :=
    calculateServerPermissions.run ((DatabasePermissionQuery.new db user).withServer server)
  (permissions, query.getMemberRank.getD (-(2 ^ 63)))

def setRolePermission (db : Database) (user : User) (target roleId : String)
    (permissions : Override PermissionValue) : Result Database := do
  let server ← okOr (db.servers.findOne target) .notFound
  let role ← okOr (server.roles.findOne roleId) .notFound
  let (own, memberRank) := asker db user server
  own.throwIfLackingChannelPermission .managePermissions
  refuseIf (role.rank ≤ memberRank) .notElevated
  own.throwPermissionOverride (some role.permissions.toOverride) permissions
  return db.updateServer server.id
    (Server.withRolePermissions roleId (OverrideField.ofOverride permissions))
    (Server.withRolePermissions_id roleId _)

def setDefaultServerPermissions (db : Database) (user : User) (target : String)
    (permissions : BitVec 64) : Result Database := do
  let server ← okOr (db.servers.findOne target) .notFound
  let (own, _) := asker db user server
  own.throwIfLackingChannelPermission .managePermissions
  own.throwPermissionOverride none ⟨permissions, 0⟩
  return db.updateServer server.id (Server.withDefaultPermissions permissions)
    (Server.withDefaultPermissions_id permissions)

/-- The denies of an override that name a permission. -/
def liftedDenies (field : OverrideField) : Override PermissionValue := ⟨0, field.d &&& grantAllSafe⟩

/-- The channels of a server that deny a role something, with what they deny. -/
def channelDenies (db : Database) (server : Server) (role : Role) :
    List (Channel × Override PermissionValue) :=
  server.channels.filterMap fun id =>
    (db.channels.findOne id).bind fun channel =>
      (((channel.overrides.bind fun overrides => overrides.1.get role.id).map liftedDenies).filter
        fun deny => deny.deny != 0).map fun deny => (channel, deny)

/-- Whoever deletes a role must be able to clear each deny it carries. -/
def throwIfDeletingLiftsDenies (db : Database) (user : User) (server : Server) (role : Role)
    (serverPermissions : PermissionValue) : Result Unit :=
  let channelDenies := channelDenies db server role
  let serverDeny := liftedDenies role.permissions
  if serverDeny.deny = 0 ∧ channelDenies = [] then .ok ()
  else do
    serverPermissions.throwIfLackingChannelPermission .managePermissions
    serverPermissions.throwPermissionOverride (some serverDeny) ⟨0, 0⟩
    channelDenies.forM fun (channel, deny) => do
      let permissions := (calculateChannelPermissions.run
        (((DatabasePermissionQuery.new db user).withChannel channel).withServer server)).1
      permissions.throwIfLackingChannelPermission .managePermissions
      permissions.throwPermissionOverride (some deny) ⟨0, 0⟩

def deleteRole (db : Database) (user : User) (target roleId : String) : Result Database := do
  let server ← okOr (db.servers.findOne target) .notFound
  let (own, memberRank) := asker db user server
  own.throwIfLackingChannelPermission .manageRole
  let role ← okOr (server.roles.findOne roleId) .notFound
  refuseIf (role.rank ≤ memberRank) .notElevated
  throwIfDeletingLiftsDenies db user server role own
  return db.deleteRole server.id role.id

inductive RoleRequest where
  | setRolePermission (roleId : String) (permissions : Override PermissionValue)
  | setDefaultServerPermissions (permissions : BitVec 64)
  | deleteRole (roleId : String)

/-- Answer a request of a user about a server. -/
def RoleRequest.handle (db : Database) (user : User) (target : String) :
    RoleRequest → Result Database
  | .setRolePermission roleId permissions =>
    Permissions.setRolePermission db user target roleId permissions
  | .setDefaultServerPermissions permissions =>
    Permissions.setDefaultServerPermissions db user target permissions
  | .deleteRole roleId => Permissions.deleteRole db user target roleId

/-! ## What an accepted request has checked -/

variable {db db' : Database} {user : User} {target roleId : String} {server server' : Server}

theorem setRolePermission_ok {permissions : Override PermissionValue}
    (h : setRolePermission db user target roleId permissions = .ok db') :
    ∃ server role, db.servers.findOne target = some server ∧
      server.roles.findOne roleId = some role ∧
      (serverPermissions db user server).throwPermissionOverride
        (some role.permissions.toOverride) permissions = .ok () ∧ db' = db.updateServer server.id
        (Server.withRolePermissions roleId (OverrideField.ofOverride permissions))
        (Server.withRolePermissions_id roleId _) := by
  simp only [setRolePermission, bind_eq_ok, okOr_eq_ok, refuseIf_eq_ok, pure_eq_ok] at h
  obtain ⟨server, hsrv, role, hrl, _, _, _, _, _, hove, hdb⟩ := h
  exact ⟨server, role, hsrv, hrl, hove, hdb.symm⟩

theorem setDefaultServerPermissions_ok {permissions : BitVec 64}
    (h : setDefaultServerPermissions db user target permissions = .ok db') :
    ∃ server, db.servers.findOne target = some server ∧
      (serverPermissions db user server).throwPermissionOverride none ⟨permissions, 0⟩ = .ok () ∧
      db' = db.updateServer server.id (Server.withDefaultPermissions permissions)
        (Server.withDefaultPermissions_id permissions) := by
  simp only [setDefaultServerPermissions, bind_eq_ok, okOr_eq_ok, pure_eq_ok] at h
  obtain ⟨server, hsrv, _, _, _, hove, hdb⟩ := h
  exact ⟨server, hsrv, hove, hdb.symm⟩

variable {i : Nat}

theorem lacks_of_throwPermissionOverride {own permissions : PermissionValue}
    (h : own.throwPermissionOverride none ⟨permissions, 0⟩ = .ok ())
    (hlac : own.getLsbD i = false) : permissions.getLsbD i = false := by
  unfold PermissionValue.throwPermissionOverride at h
  dsimp only at h
  split at h
  · cases h
  · rename_i hhas
    rw [Bool.not_eq_true, Bool.not_eq_false'] at hhas
    rw [← Bool.not_eq_true]
    exact fun hbit => false_ne_true (hlac.symm.trans (has_iff.mp hhas i hbit))

theorem getLsbD_grantAllSafe : ∀ i < 52, grantAllSafe.getLsbD i = true := by decide

theorem throwIfDeletingLiftsDenies_ok {role : Role} {own : PermissionValue}
    (h : throwIfDeletingLiftsDenies db user server role own = .ok ()) (hi : i < 52)
    (hlac : own.getLsbD i = false) : role.permissions.d.getLsbD i = false := by
  have hdn : (liftedDenies role.permissions).deny.getLsbD i = role.permissions.d.getLsbD i := by
    unfold liftedDenies
    rw [BitVec.getLsbD_and, getLsbD_grantAllSafe i hi, Bool.and_true]
  rw [← hdn]
  unfold throwIfDeletingLiftsDenies at h
  dsimp only at h
  split at h
  · rename_i hnot
    rw [hnot.1]
    exact BitVec.getLsbD_zero
  · simp only [bind_eq_ok] at h
    obtain ⟨_, _, _, hove, _⟩ := h
    have hwit := within_of_throwPermissionOverride hove (by omega) hlac
    have hno : (liftedDenies role.permissions).deny.getLsbD i ⊓ true ≤ (0#64).getLsbD i := hwit.deny
    rw [BitVec.getLsbD_zero] at hno
    exact le_bot_iff.mp ((inf_top_eq _).symm.trans_le hno)

theorem deleteRole_ok (h : deleteRole db user target roleId = .ok db') :
    ∃ server role, db.servers.findOne target = some server ∧
      server.roles.findOne roleId = some role ∧
      throwIfDeletingLiftsDenies db user server role (serverPermissions db user server) = .ok () ∧
      db' = db.deleteRole server.id roleId := by
  simp only [deleteRole, bind_eq_ok, okOr_eq_ok, refuseIf_eq_ok, pure_eq_ok] at h
  obtain ⟨server, hsrv, _, _, role, hrl, _, _, _, hlif, hdb⟩ := h
  rw [show role.id = roleId from key_of_findOne hrl] at hdb
  exact ⟨server, role, hsrv, hrl, hlif, hdb.symm⟩

/-! ## The roles of a member -/

/-- The roles of a server that are held, with their ranks. -/
def rankedRoles (server : Server) (held : List String) : List (Int × Role) :=
  (server.roles.rows.entries.filter fun entry => held.contains entry.1).map fun entry =>
    (entry.2.rank, entry.2)

def roleBit (i : Nat) (role : Role) : Override Bool := bitOf i role.permissions.toOverride

theorem distinctRanks_rankedRoles (hranks : server.DistinctRanks) (held : List String) :
    DistinctRanks (rankedRoles server held) :=
  pairwise_map.mpr (List.Pairwise.filter _ hranks)

/-- At one bit, the fold of a member's roles is over any list that has their ranks and what they
do to the bit. -/
theorem getLsbD_heldPermissions {held : List String} {l : List (Int × Role)} (f : Role → Role)
    (hdist : DistinctRanks l)
    (hpr : (l.map fun a => (a.1, f a.2)).Perm (rankedRoles server held)) (hi : i < 64) :
    (heldPermissions server held).getLsbD i =
      ((l.insertionSort RankBefore).map fun a => roleBit i (f a.2)).foldl Override.apply
        (server.defaultPermissions.getLsbD i) := by
  have hhl : (l.map fun a => (a.1, (f a.2).permissions.toOverride)).Perm
      (heldRoles server held) := by
    have h := hpr.map fun a : Int × Role => (a.1, a.2.permissions.toOverride)
    rw [map_map] at h
    unfold rankedRoles at h
    rw [map_map] at h
    exact h
  have hranks : DistinctRanks (l.map fun a => (a.1, (f a.2).permissions.toOverride)) :=
    pairwise_map.mpr hdist
  unfold heldPermissions
  rw [← byRank_perm hranks hhl,
    byRank_map (fun a : Int × Role => (a.1, (f a.2).permissions.toOverride)) fun _ => rfl,
    getLsbD_foldl hi, map_map]
  rfl

def Role.editedAt (roleId : String) (permissions : OverrideField) (role : Role) : Role :=
  if role.id = roleId then role.withPermissions permissions else role

theorem eq_of_mem_rankedRoles {role : Role} (hrl : server.roles.findOne roleId = some role)
    {held : List String} {a : Int × Role} (ha : a ∈ rankedRoles server held) (hid : a.2.id = roleId)
    : a.2 = role := by
  obtain ⟨entry, hent, rfl⟩ := mem_map.mp ha
  have hfnd := get_eq_some_iff.mpr (List.mem_of_mem_filter hent)
  have hkey : entry.2.id = entry.1 := server.roles.keyed _ _ hfnd
  rw [← hkey, hid] at hfnd
  exact some.inj (hfnd.symm.trans hrl)

section

variable (server : Server) (roleId : String)

theorem findOne_withRolePermissions (permissions : OverrideField) (id : String) :
    (server.withRolePermissions roleId permissions).roles.findOne id =
      (server.roles.findOne id).map (Role.editedAt roleId permissions) := by
  unfold Server.withRolePermissions
  rw [Collection.findOne_updateOne]
  cases hrl : server.roles.findOne id with
  | none => exact ite_self none
  | some role =>
    have hid : role.id = id := key_of_findOne hrl
    unfold Role.editedAt
    rw [map_some, map_some, hid]
    split <;> rfl

theorem perm_rankedRoles_withRolePermissions (permissions : OverrideField) (held : List String) :
    ((rankedRoles server held).map fun a => (a.1, a.2.editedAt roleId permissions)).Perm
      (rankedRoles (server.withRolePermissions roleId permissions) held) := by
  have hents : (server.roles.rows.mapValues (Role.editedAt roleId permissions)).entries.Perm
      (server.withRolePermissions roleId permissions).roles.rows.entries :=
    Table.perm_of_get fun id => (get_mapValues _ _ _).trans
      (findOne_withRolePermissions server roleId permissions id).symm
  have hrn : ∀ role : Role, (role.editedAt roleId permissions).rank = role.rank := by
    intro role
    unfold Role.editedAt
    split <;> rfl
  refine List.Perm.trans (List.Perm.of_eq ?_) ((hents.filter _).map _)
  unfold rankedRoles Table.mapValues
  rw [map_map, List.filter_map, map_map]
  simp only [Function.comp_def, hrn]

theorem perm_rankedRoles_removeRole (held : List String) :
    ((rankedRoles server held).filter fun a => a.2.id != roleId).Perm
      (rankedRoles (server.removeRole roleId) (held.filter fun id => id != roleId)) := by
  have hents : (server.roles.rows.retain fun id _ => id != roleId).entries.Perm
      (server.removeRole roleId).roles.rows.entries := by
    refine Table.perm_of_get fun id => Option.ext fun role => ?_
    have hg : (server.removeRole roleId).roles.rows.get id = _ :=
      get_erase server.roles.rows roleId id
    rw [get_retain_eq_some, hg]
    by_cases hid : id = roleId <;> simp [hid]
  refine List.Perm.trans (List.Perm.of_eq ?_) ((hents.filter _).map _)
  unfold rankedRoles Table.retain
  rw [List.filter_map, List.filter_filter, List.filter_filter]
  refine congrArg (List.map _) (List.filter_congr fun entry hent => ?_)
  have hid : entry.2.id = entry.1 := server.roles.keyed _ _ (get_eq_some_iff.mpr hent)
  rw [Function.comp_apply, hid, Bool.eq_iff_iff]
  simp only [and_eq_true, contains_iff_mem, mem_filter, bne_iff_ne]
  tauto

end

section Gains

variable {server : Server} (hranks : server.DistinctRanks) {i : Nat} (hi : i < 64)
include hranks hi

theorem getLsbD_heldPermissions_self (held : List String) :
    (heldPermissions server held).getLsbD i =
      (((rankedRoles server held).insertionSort RankBefore).map fun a => roleBit i a.2).foldl
        Override.apply (server.defaultPermissions.getLsbD i) := by
  refine getLsbD_heldPermissions id (distinctRanks_rankedRoles hranks held) ?_ hi
  rw [show (fun a : Int × Role => (a.1, id a.2)) = id from rfl, List.map_id]

/-- **Setting an override.** At a bit where the new override is within the old one, no member
gains. -/
theorem heldPermissions_withRolePermissions {role : Role}
    (hrl : server.roles.findOne roleId = some role) {permissions : OverrideField}
    (hwit : (bitOf i role.permissions.toOverride).Within true (bitOf i permissions.toOverride))
    (held : List String) :
    (heldPermissions (server.withRolePermissions roleId permissions) held).getLsbD i ⊓ true ≤
      (heldPermissions server held).getLsbD i := by
  rw [getLsbD_heldPermissions_self hranks hi,
    getLsbD_heldPermissions _ (distinctRanks_rankedRoles hranks held)
      (perm_rankedRoles_withRolePermissions server roleId permissions held) hi]
  refine Override.foldl_gain ?_ inf_le_left
  rw [List.forall₂_map_left_iff, List.forall₂_map_right_iff, List.forall₂_same]
  intro a ha
  rw [List.mem_insertionSort] at ha
  unfold Role.editedAt
  split
  · rename_i hid
    obtain rfl := eq_of_mem_rankedRoles hrl ha hid
    exact hwit
  · exact Override.Within.refl _ _

omit hranks hi in
/-- **Setting the defaults.** -/
theorem heldPermissions_withDefaultPermissions (hranks : server.DistinctRanks) (hi : i < 64)
    {permissions : BitVec 64} (hlac : permissions.getLsbD i = false) (held : List String) :
    (heldPermissions (server.withDefaultPermissions permissions) held).getLsbD i ⊓ true ≤
      (heldPermissions server held).getLsbD i := by
  have hranks' : (server.withDefaultPermissions permissions).DistinctRanks := hranks
  rw [getLsbD_heldPermissions_self hranks hi, getLsbD_heldPermissions_self hranks' hi]
  refine Override.foldl_gain ?_ ?_
  · rw [List.forall₂_map_left_iff, List.forall₂_map_right_iff]
    exact List.forall₂_same.mpr fun _ _ => Override.Within.refl _ _
  · show permissions.getLsbD i ⊓ true ≤ _
    rw [hlac]
    exact bot_le

/-- **Deleting a role.** Where it denied nothing, no member gains. -/
theorem heldPermissions_removeRole {role : Role} (hrl : server.roles.findOne roleId = some role)
    (hdn : role.permissions.d.getLsbD i = false) (held : List String) :
    (heldPermissions (server.removeRole roleId)
        (held.filter fun id => id != roleId)).getLsbD i ⊓ true ≤
      (heldPermissions server held).getLsbD i := by
  have hdist := distinctRanks_rankedRoles hranks held
  have hpr := perm_rankedRoles_removeRole server roleId held
  rw [← List.map_id (List.filter _ _)] at hpr
  rw [getLsbD_heldPermissions_self hranks hi,
    getLsbD_heldPermissions id (hdist.filter _) hpr hi, insertionSort_filter hdist]
  refine Override.foldl_filter_gain (fun a : Int × Role => roleBit i a.2)
    (fun a => a.2.id != roleId) ?_ inf_le_left
  intro a ha hgo
  rw [List.mem_insertionSort] at ha
  obtain rfl := eq_of_mem_rankedRoles hrl ha (by simpa using hgo)
  show a.2.permissions.d.getLsbD i ⊓ true = ⊥
  rw [hdn]
  exact bot_inf_eq _

end Gains

/-! ## What an accepted request grants -/

/-- A change of the roles shows in the value of a member, where mute, deafen and timeout let it. -/
theorem serverPermissions_gain (user : User) (f : Member → Member)
    (hlim : ∀ member now value, (f member).limit now value =
      member.limit now value) (hid : server'.id = server.id) (hown : server'.owner = server.owner)
    (hnow : db'.now = db.now) (hmbs : db'.members.findOne (server.id, user.id) =
      (db.members.findOne (server.id, user.id)).map f)
    (hhl : ∀ member : Member, (heldPermissions server' (f member).roles).getLsbD i ⊓ true ≤
      (heldPermissions server member.roles).getLsbD i)
    (haft : (serverPermissions db' user server').getLsbD i = true) :
    (serverPermissions db user server).getLsbD i = true := by
  rw [serverPermissions_eq, hown] at haft
  rw [serverPermissions_eq]
  split
  · rename_i hall
    rw [if_pos hall] at haft
    exact haft
  · rename_i hall
    rw [if_neg hall, hid, hmbs, hnow] at haft
    cases hmb : db.members.findOne (server.id, user.id) with
    | none =>
      rw [hmb] at haft
      exact haft
    | some member =>
      rw [hmb] at haft
      have hgn := hhl member
      change (memberPermissions db.now server' (f member)).getLsbD i = true at haft
      show (memberPermissions db.now server member).getLsbD i = true
      unfold memberPermissions at haft ⊢
      rw [hlim, limit_eq, BitVec.getLsbD_and, and_eq_true] at haft
      rw [limit_eq, BitVec.getLsbD_and, and_eq_true]
      rw [haft.1] at hgn
      exact ⟨top_le_iff.mp hgn, haft.2⟩

theorem findOne_updateServer (hsrv : db.servers.findOne server.id = some server)
    (update : Server → Server) (hkey : ∀ server, (update server).id = server.id) :
    (db.updateServer server.id update hkey).servers.findOne server.id = some (update server) := by
  unfold Database.updateServer
  rw [Collection.findOne_updateOne, if_pos rfl, hsrv]
  rfl

theorem findOne_deleteRole (db : Database) (serverId roleId userId : String) :
    (db.deleteRole serverId roleId).members.findOne (serverId, userId) =
      (db.members.findOne (serverId, userId)).map (Member.withoutRole roleId) := by
  unfold Database.deleteRole
  rw [Collection.findOne_updateMany]
  cases hmb : db.members.findOne (serverId, userId) with
  | none => rfl
  | some member =>
    have hsrv : member.server = serverId := congrArg Prod.fst (key_of_findOne hmb)
    rw [map_some, map_some, if_pos (by rw [hsrv, beq_self_eq_true])]

/-- After a request, no user has a bit that the user lacked and its sender lacks. -/
def GrantsOwn (db db' : Database) (actor : User) (server server' : Server) : Prop :=
  ∀ (user : User) (i : Nat), i < 52 → (serverPermissions db' user server').getLsbD i = true →
    (serverPermissions db user server).getLsbD i = false →
      (serverPermissions db actor server).getLsbD i = true

/-- It is enough that whoever is judged by other documents gains no bit the sender lacks. -/
theorem grantsOwn_of_gain {actor : User} (f : Member → Member)
    (hlim : ∀ member now value, (f member).limit now value =
      member.limit now value) (hid : server'.id = server.id) (hown : server'.owner = server.owner)
    (hnow : db'.now = db.now) (hmbs : ∀ id, db'.members.findOne (server.id, id) =
      (db.members.findOne (server.id, id)).map f)
    (hhl : ∀ i < 52, (serverPermissions db actor server).getLsbD i = false → ∀ member : Member,
      (heldPermissions server' (f member).roles).getLsbD i ⊓ true ≤
        (heldPermissions server member.roles).getLsbD i) :
    GrantsOwn db db' actor server server' := by
  intro user i hi haft hbef
  by_contra hlac
  rw [Bool.not_eq_true] at hlac
  have hgn := serverPermissions_gain user f hlim hid hown hnow (hmbs user.id) (hhl i hi hlac) haft
  exact false_ne_true (hbef.symm.trans hgn)

section Grants

variable {db : Database} {actor : User} {server : Server} (hranks : server.DistinctRanks)
include hranks

theorem grantsOwn_setRolePermission {role : Role}
    {permissions : Override PermissionValue} (hrl : server.roles.findOne roleId = some role)
    (hove : (serverPermissions db actor server).throwPermissionOverride
      (some role.permissions.toOverride) permissions = .ok ()) :
    GrantsOwn db (db.updateServer server.id
      (Server.withRolePermissions roleId (OverrideField.ofOverride permissions))
      (Server.withRolePermissions_id roleId _)) actor server
      (server.withRolePermissions roleId (OverrideField.ofOverride permissions)) := by
  refine grantsOwn_of_gain id (fun _ _ _ => rfl) rfl rfl rfl (fun _ => Option.map_id_apply.symm) ?_
  intro i hi hlac member
  exact heldPermissions_withRolePermissions hranks (by omega) hrl
    (within_of_throwPermissionOverride hove (by omega) hlac) member.roles

theorem grantsOwn_setDefaultServerPermissions {permissions : BitVec 64}
    (hove : (serverPermissions db actor server).throwPermissionOverride none
      ⟨permissions, 0⟩ = .ok ()) :
    GrantsOwn db (db.updateServer server.id (Server.withDefaultPermissions permissions)
      (Server.withDefaultPermissions_id permissions)) actor server
      (server.withDefaultPermissions permissions) := by
  refine grantsOwn_of_gain id (fun _ _ _ => rfl) rfl rfl rfl (fun _ => Option.map_id_apply.symm) ?_
  intro i hi hlac member
  exact heldPermissions_withDefaultPermissions hranks (by omega)
    (lacks_of_throwPermissionOverride hove hlac) member.roles

theorem grantsOwn_deleteRole {role : Role} (hrl : server.roles.findOne roleId = some role)
    (hlif : throwIfDeletingLiftsDenies db actor server role (serverPermissions db actor server) =
      .ok ()) :
    GrantsOwn db (db.deleteRole server.id roleId) actor server (server.removeRole roleId) := by
  refine grantsOwn_of_gain (Member.withoutRole roleId) (fun _ _ _ => rfl) rfl rfl rfl
    (findOne_deleteRole db server.id roleId) ?_
  intro i hi hlac member
  exact heldPermissions_removeRole hranks (by omega) hrl
    (throwIfDeletingLiftsDenies_ok hlif hi hlac) member.roles

end Grants

/-- **An accepted request grants nothing its sender lacks.** -/
theorem role_edit_grants_own {db db' : Database} {actor : User} {server : Server}
    {request : RoleRequest} (hserver : db.servers.findOne server.id = some server)
    (hranks : server.DistinctRanks) (haccepted : request.handle db actor server.id = .ok db') :
    ∃ server', db'.servers.findOne server.id = some server' ∧
      GrantsOwn db db' actor server server' := by
  cases request with
  | setRolePermission roleId permissions =>
    obtain ⟨found, role, hfound, hrole, hoverride, rfl⟩ := setRolePermission_ok haccepted
    cases hserver.symm.trans hfound
    exact ⟨_, findOne_updateServer hserver _ _, grantsOwn_setRolePermission hranks hrole hoverride⟩
  | setDefaultServerPermissions permissions =>
    obtain ⟨found, hfound, hoverride, rfl⟩ := setDefaultServerPermissions_ok haccepted
    cases hserver.symm.trans hfound
    exact ⟨_, findOne_updateServer hserver _ _,
      grantsOwn_setDefaultServerPermissions hranks hoverride⟩
  | deleteRole roleId =>
    obtain ⟨found, role, hfound, hrole, hlifts, rfl⟩ := deleteRole_ok haccepted
    cases hserver.symm.trans hfound
    exact ⟨_, findOne_updateServer hserver (Server.removeRole roleId) (Server.removeRole_id roleId),
      grantsOwn_deleteRole hranks hrole hlifts⟩

/-- A role that keeps members from being kicked, and one above it that may lift this. -/
def guardedServer : Server :=
  ⟨"S", "O", [], (Collection.empty.put ⟨"top", "top",
    ⟨allOf [.managePermissions, .manageRole, .kickMembers], 0⟩, 0⟩).put ⟨"low", "low",
      ⟨0, ChannelPermission.kickMembers.value⟩, 1⟩, defaultPermission⟩

def guardedDatabase : Database where
  users := Collection.empty
  servers := Collection.empty.put guardedServer
  channels := Collection.empty
  members := (Collection.empty.put ⟨"S", "U", ["top"], none, true, true⟩).put
    ⟨"S", "V", ["low"], none, true, true⟩
  now := 0

theorem role_edit_grants_own_lifted :
    ∃ db', (RoleRequest.deleteRole "low").handle guardedDatabase ⟨"U", false, none, []⟩ "S" =
        .ok db' ∧
      ∃ server', db'.servers.findOne "S" = some server' ∧
        GrantsOwn guardedDatabase db' ⟨"U", false, none, []⟩ guardedServer server' := by
  have hok : ((RoleRequest.deleteRole "low").handle guardedDatabase ⟨"U", false, none, []⟩
    "S").isOk = true := by decide
  cases hanswer : (RoleRequest.deleteRole "low").handle guardedDatabase ⟨"U", false, none, []⟩
      "S" with
  | ok db' =>
    have hserver : guardedDatabase.servers.findOne guardedServer.id = some guardedServer := by
      decide
    exact ⟨db', rfl, role_edit_grants_own hserver (by decide) hanswer⟩
  | error e =>
    rw [hanswer] at hok
    cases hok

end SlogaBackend.Permissions
