import SlogaBackend.Permissions.Evaluation

/-!
# Iteration order

Two copies of a document agree when they differ only in the order in which their maps are
iterated. Where the ranks of a server's roles are distinct, what is calculated from two
copies that agree is the same (`serverPermissions_congr`, `channelPermissions_congr`).
-/

namespace SlogaBackend.Permissions

open DatabasePermissionQuery

/-- No two roles of the server have the same rank. -/
def Server.DistinctRanks (server : Server) : Prop :=
  server.roles.rows.entries.Pairwise fun a b => a.2.rank ≠ b.2.rank

instance (server : Server) : Decidable server.DistinctRanks :=
  inferInstanceAs (Decidable (List.Pairwise _ _))

/-- The same server, its roles iterated in any order. -/
structure Server.Agrees (server server' : Server) : Prop where
  id : server.id = server'.id
  owner : server.owner = server'.owner
  defaultPermissions : server.defaultPermissions = server'.defaultPermissions
  roles : server.roles.rows.entries.Perm server'.roles.rows.entries

/-- The same channel, its overrides iterated in any order. -/
def Channel.Agrees : Channel → Channel → Prop
  | .textChannel id server defaultPermissions rolePermissions, channel =>
    ∃ rolePermissions', rolePermissions.entries.Perm rolePermissions'.entries ∧
      channel = .textChannel id server defaultPermissions rolePermissions'
  | .forum id server defaultPermissions rolePermissions, channel =>
    ∃ rolePermissions', rolePermissions.entries.Perm rolePermissions'.entries ∧
      channel = .forum id server defaultPermissions rolePermissions'
  | channel, channel' => channel = channel'

theorem Channel.Agrees.refl (channel : Channel) : channel.Agrees channel := by
  cases channel with
  | textChannel | forum => exact ⟨_, List.Perm.refl _, rfl⟩
  | _ => rfl

/-! ## Sorted overrides -/

section Server

variable {server server' : Server}

theorem Server.Agrees.get (h : server.Agrees server') (id : String) :
    server.roles.findOne id = server'.roles.findOne id := AList.perm_lookup h.roles

section

variable (hran : server.DistinctRanks)
include hran

theorem Server.DistinctRanks.rank_ne {id id' : String}
    {role role' : Role} (hrl : server.roles.findOne id = some role)
    (hrl' : server.roles.findOne id' = some role') (hne : id ≠ id') : role.rank ≠ role'.rank := by
  have : Std.Symm fun a b : (_ : String) × Role => a.2.rank ≠ b.2.rank :=
    ⟨fun _ _ h heq => h heq.symm⟩
  refine List.Pairwise.forall hran (get_eq_some_iff.mp hrl)
    (get_eq_some_iff.mp hrl') fun heq => hne ?_
  exact congrArg Sigma.fst heq

theorem distinctRanks_heldRoles (held : List String) : DistinctRanks (heldRoles server held) :=
  pairwise_map.mpr (List.Pairwise.filter _ hran)

theorem distinctRanks_heldOverrides
    (rolePermissions : Table String OverrideField) (held : List String) :
    DistinctRanks (heldOverrides server rolePermissions held) := by
  refine List.Pairwise.filterMap _ ?_ (List.Pairwise.filter _
    (List.nodupKeys_iff_pairwise.mp rolePermissions.nodupKeys))
  intro a b hne x hx y hy
  obtain ⟨role, hrl, rfl⟩ := map_eq_some_iff.mp hx
  obtain ⟨role', hrl', rfl⟩ := map_eq_some_iff.mp hy
  exact hran.rank_ne hrl hrl' hne

end

theorem heldPermissions_congr (h : server.Agrees server') (hran : server.DistinctRanks)
    (held : List String) : heldPermissions server held = heldPermissions server' held := by
  have hpr : (heldRoles server held).Perm (heldRoles server' held) := (h.roles.filter _).map _
  unfold heldPermissions
  rw [byRank_perm (distinctRanks_heldRoles hran held) hpr, h.defaultPermissions]

theorem byRank_heldOverrides_congr (h : server.Agrees server') (hran : server.DistinctRanks)
    {rolePermissions rolePermissions' : Table String OverrideField}
    (hpr : rolePermissions.entries.Perm rolePermissions'.entries) (held : List String) :
    byRank (heldOverrides server rolePermissions held) =
      byRank (heldOverrides server' rolePermissions' held) := by
  refine byRank_perm (distinctRanks_heldOverrides hran _ _) ?_
  unfold heldOverrides
  rw [funext fun id => h.get id]
  exact (hpr.filter _).filterMap _

variable {channel channel' : Channel}

section

variable (h : server.Agrees server') (hran : server.DistinctRanks)
include h hran

theorem channelOverrides_congr
    (held : List String) (permissions : PermissionValue) (hch : channel.Agrees channel') :
    channelOverrides server held permissions channel =
      channelOverrides server' held permissions channel' := by
  cases channel with
  | textChannel | forum =>
    obtain ⟨_, hpr, rfl⟩ := hch
    exact congrArg (List.foldl PermissionValue.apply _) (byRank_heldOverrides_congr h hran hpr held)
  | _ =>
    obtain rfl : _ = channel' := hch
    rfl

/-! ## Values -/

theorem memberPermissions_congr (now : Timestamp) (member : Member) :
    memberPermissions now server member = memberPermissions now server' member := by
  unfold memberPermissions
  rw [heldPermissions_congr h hran]

theorem memberChannelPermissions_congr
    (now : Timestamp) (hch : channel.Agrees channel') (member : Member) :
    memberChannelPermissions now server channel member =
      memberChannelPermissions now server' channel' member := by
  unfold memberChannelPermissions
  rw [memberPermissions_congr h hran, channelOverrides_congr h hran _ _ hch]

end

/-- **Against a server, iteration order does not matter.** -/
theorem serverPermissions_congr (db : Database) (user : User) (h : server.Agrees server')
    (hran : server.DistinctRanks) :
    serverPermissions db user server = serverPermissions db user server' := by
  rw [serverPermissions_eq, serverPermissions_eq, h.owner, h.id,
    funext (memberPermissions_congr h hran db.now)]

/-- **Against a channel of a server, iteration order does not matter**, neither that of the
server as it is stored nor that of the channel. -/
theorem channelPermissions_congr {db db' : Database} (user : User)
    (hsrv : (serverOf channel).bind db.servers.findOne = some server)
    (hsrv' : (serverOf channel').bind db'.servers.findOne = some server')
    (hmbs : db.members = db'.members) (hnow : db.now = db'.now) (h : server.Agrees server')
    (hran : server.DistinctRanks) (hch : channel.Agrees channel') :
    channelPermissions db user channel = channelPermissions db' user channel' := by
  rw [channelPermissions_eq db user hsrv, channelPermissions_eq db' user hsrv', h.owner,
    h.id, hmbs, hnow, funext (memberChannelPermissions_congr h hran db'.now hch)]

end Server
end SlogaBackend.Permissions
