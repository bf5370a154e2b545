import SlogaBackend.Permissions.Bulk

/-!
# Muted and deafened members

A server mutes or deafens a member by taking bits away from what the member has on the server.
The overrides of a channel are applied after that, and they can give the bits back; only a timeout
is put on again at the end. At one bit a list of overrides comes to whether one of them grants it,
and whether they all leave it (`foldl_apply_eq`).
-/

namespace SlogaBackend.Permissions

/-- One of the overrides allows, and neither it nor a later one denies. -/
def grants : List (Override Bool) → Bool
  | [] => false
  | o :: overrides => (o.allow && (o :: overrides).all fun o => !o.deny) || grants overrides

theorem apply_eq (granted : Bool) (o : Override Bool) :
    Override.apply granted o = ((granted || o.allow) && !o.deny) := by
  unfold Override.apply
  cases granted <;> cases o.allow <;> cases o.deny <;> rfl

theorem foldl_apply_eq (overrides : List (Override Bool)) (granted : Bool) :
    overrides.foldl Override.apply granted =
      (grants overrides || (granted && overrides.all fun o => !o.deny)) := by
  induction overrides generalizing granted with
  | nil => simp [grants]
  | cons o overrides ih =>
    rw [foldl_cons, ih, grants, List.all_cons, apply_eq]
    cases granted <;> cases o.allow <;> cases o.deny <;> cases grants overrides <;>
      cases overrides.all (fun o => !o.deny) <;> rfl

/-- The overrides of a channel for the roles held, in the order in which they are applied. -/
def Channel.overridesFor (channel : Channel) (server : Server) (held : List String) :
    List (Override PermissionValue) :=
  match channel.overrides with
  | some (rolePermissions, defaultPermissions) =>
    DatabasePermissionQuery.orEmpty defaultPermissions ::
      byRank (heldOverrides server rolePermissions held)
  | none => []

def ChannelPermission.grantedBy (permission : ChannelPermission)
    (overrides : List (Override PermissionValue)) : Bool :=
  grants (overrides.map (bitOf permission.position))

/-- Whether the defaults of the server and the overrides of server and channel show it. -/
def Channel.shownTo (channel : Channel) (server : Server) (held : List String) : Bool :=
  let overrides := byRank (heldRoles server held) ++ channel.overridesFor server held
  ChannelPermission.viewChannel.grantedBy overrides ||
    (server.defaultPermissions.getLsbD ChannelPermission.viewChannel.position &&
      overrides.all fun o => !o.deny.getLsbD ChannelPermission.viewChannel.position)

/-- What mute and deafen take away. -/
def Member.silenced (member : Member) : List ChannelPermission :=
  (if member.canPublish then [] else [.speak, .video]) ++
    if member.canReceive then [] else [.listen]

/-- Mute and deafen hold. -/
def Member.Silent (member : Member) (permissions : PermissionValue) : Prop :=
  ∀ permission ∈ member.silenced, permissions.hasChannelPermission permission = false

section Silence

variable {member : Member} {server : Server} {channel : Channel} {now : Timestamp}
  {permission : ChannelPermission}

theorem mem_silenced : permission ∈ member.silenced ↔
    (member.canPublish = false ∧ (permission = .speak ∨ permission = .video)) ∨
      (member.canReceive = false ∧ permission = .listen) := by
  unfold Member.silenced
  cases member.canPublish <;> cases member.canReceive <;> simp [or_assoc]

theorem channelOverrides_eq_foldl (held : List String) (permissions : PermissionValue) :
    channelOverrides server held permissions channel =
      (channel.overridesFor server held).foldl PermissionValue.apply permissions := by
  have hno : PermissionValue.apply permissions ⟨0, 0⟩ = permissions :=
    BitVec.eq_of_getLsbD_eq fun i hi => by simp [getLsbD_apply _ _ hi, apply_eq, bitOf]
  cases channel <;> first | rfl | exact hno

theorem has_foldl (permission : ChannelPermission) (overrides : List (Override PermissionValue))
    (value : PermissionValue) :
    (overrides.foldl PermissionValue.apply value).hasChannelPermission permission =
      (permission.grantedBy overrides || (value.hasChannelPermission permission &&
        overrides.all fun o => !o.deny.getLsbD permission.position)) := by
  have hpos : permission.position < 64 := by cases permission <;> decide
  rw [hasChannelPermission_eq, getLsbD_foldl hpos, foldl_apply_eq, List.all_map,
    hasChannelPermission_eq]
  rfl

theorem limit_silenced (hsil : permission ∈ member.silenced) (permissions : PermissionValue) :
    (member.limit now permissions).hasChannelPermission permission = false := by
  have hms : (member.limit now (BitVec.allOnes 64)).getLsbD permission.position = false := by
    unfold Member.limit
    rcases mem_silenced.mp hsil with ⟨hmut, rfl | rfl⟩ | ⟨hdeaf, rfl⟩
    · rw [hmut]
      cases member.canReceive <;> cases member.inTimeout now <;> decide
    · rw [hmut]
      cases member.canReceive <;> cases member.inTimeout now <;> decide
    · rw [hdeaf]
      cases member.canPublish <;> cases member.inTimeout now <;> decide
  rw [limit_eq, hasChannelPermission_eq, BitVec.getLsbD_and, hms, Bool.and_false]

theorem shown_eq (now : Timestamp) :
    (channelOverrides server member.roles (memberPermissions now server member)
      channel).hasChannelPermission .viewChannel = channel.shownTo server member.roles := by
  have hsrv : (memberPermissions now server member).hasChannelPermission .viewChannel =
      (heldPermissions server member.roles).hasChannelPermission .viewChannel :=
    limit_viewChannel _ _ _
  unfold Channel.shownTo
  rw [channelOverrides_eq_foldl, has_foldl, hsrv, ← has_foldl, ← hasChannelPermission_eq,
    ← has_foldl, List.foldl_append]
  rfl

theorem memberChannelPermissions_silenced (hsil : permission ∈ member.silenced) :
    (memberChannelPermissions now server channel member).hasChannelPermission permission =
      (!member.inTimeout now && channel.shownTo server member.roles &&
        permission.grantedBy (channel.overridesFor server member.roles)) := by
  have hgran : (channelOverrides server member.roles (memberPermissions now server member)
      channel).hasChannelPermission permission =
        permission.grantedBy (channel.overridesFor server member.roles) := by
    have hno : (memberPermissions now server member).hasChannelPermission permission = false :=
      limit_silenced hsil _
    rw [channelOverrides_eq_foldl, has_foldl, hno, Bool.false_and, Bool.or_false]
  have hout : allowInTimeout.getLsbD permission.position = false := by
    rcases mem_silenced.mp hsil with ⟨-, rfl | rfl⟩ | ⟨-, rfl⟩ <;> decide
  unfold memberChannelPermissions
  dsimp only
  rw [← shown_eq now, ← hgran]
  cases member.inTimeout now with
  | true =>
    rw [if_pos rfl, Bool.not_true, Bool.false_and, Bool.false_and]
    split
    · rw [hasChannelPermission_eq, PermissionValue.restrict, BitVec.getLsbD_and, hout,
        Bool.and_false]
    · simp [hasChannelPermission_eq]
  | false =>
    rw [if_neg false_ne_true, Bool.not_false, Bool.true_and]
    split
    · rename_i hshow
      rw [hshow, Bool.true_and]
    · rename_i hhid
      simp [Bool.eq_false_of_not_eq_true hhid, hasChannelPermission_eq]

/-- **A mute or deafen holds in a channel exactly when** the member is in timeout, or does not see
the channel, or the overrides of the channel grant none of what is taken away. -/
theorem silence_holds_iff (db : Database) (user : User)
    (hserver : (DatabasePermissionQuery.serverOf channel).bind db.servers.findOne = some server)
    (hprivileged : user.privileged = false) (howner : (server.owner == user.id) = false)
    (hmember : db.members.findOne (server.id, user.id) = some member) :
    member.Silent (channelPermissions db user channel) ↔
      member.inTimeout db.now = true ∨ channel.shownTo server member.roles = false ∨
        ∀ permission ∈ member.silenced,
          permission.grantedBy (channel.overridesFor server member.roles) = false := by
  have hvalue : channelPermissions db user channel =
      memberChannelPermissions db.now server channel member := by
    rw [channelPermissions_eq db user hserver, hprivileged, howner, hmember]
    rfl
  have hsilent : member.Silent (memberChannelPermissions db.now server channel member) ↔
      ∀ permission ∈ member.silenced, (!member.inTimeout db.now &&
        channel.shownTo server member.roles &&
          permission.grantedBy (channel.overridesFor server member.roles)) = false :=
    forall₂_congr fun permission hmem => by rw [memberChannelPermissions_silenced hmem]
  rw [hvalue, hsilent]
  cases member.inTimeout db.now <;> cases channel.shownTo server member.roles <;> simp

/-- A member who is muted, and not in timeout. -/
def mutedMember : Member := { sampleMember with timeout := none }

def mutedDatabase : Database := { sampleDatabase with members := Collection.empty.put mutedMember }

/-- The overrides of the sample channel grant nothing that the mute takes away. -/
theorem silence_holds_sample : mutedMember.Silent
    (channelPermissions mutedDatabase (sampleUser "U") (sampleChannel sampleOverrides)) :=
  have hserver : (DatabasePermissionQuery.serverOf (sampleChannel sampleOverrides)).bind
    mutedDatabase.servers.findOne = some (sampleServer sampleRoles) := by decide
  (silence_holds_iff mutedDatabase (sampleUser "U") hserver rfl (by decide) (by decide)).mpr
    (.inr (.inr (by decide)))

/-- A channel whose default allows speaking unmutes for itself. -/
theorem muted_member_speaks : ¬∀ (db : Database) (user : User) (channel : Channel)
    (server : Server) (member : Member),
    (DatabasePermissionQuery.serverOf channel).bind db.servers.findOne = some server →
      user.privileged = false → (server.owner == user.id) = false →
        db.members.findOne (server.id, user.id) = some member →
          member.Silent (channelPermissions db user channel) := by
  intro hall
  have hsilent := hall mutedDatabase (sampleUser "U") (.textChannel "C" "S"
    (some ⟨ChannelPermission.speak.value, 0⟩) (Table.ofEntries [])) (sampleServer sampleRoles)
    mutedMember (by decide) rfl (by decide) (by decide)
  exact absurd (hsilent .speak (by decide)) (by decide)

end Silence
end SlogaBackend.Permissions
