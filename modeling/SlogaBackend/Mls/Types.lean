import SlogaBackend.Base

/-!
# The records of protected channels and MLS groups

The rows of `models/mls/model.rs` and `models/protected_channels/model.rs`, with
the fields the drivers read or write, and the methods those records carry.
Channels, servers, members, messages, identities and queued envelopes appear
here only with the fields the protected-channel and MLS drivers look at.
-/

namespace SlogaBackend.Mls

/-! ## Limits -/

/-- Roster ceiling for an E2EE call group. -/
def maxMlsGroupMembers : Nat := 100

/-- Leaf ceiling for a protected-channel Text group, counting every device. -/
def maxMlsTextGroupMembers : Nat := 100

/-- How old a stored rejoin intent may be and still justify a rejoin Remove. -/
def mlsRejoinOutstandingWindowSeconds : Int := 30

/-- How long a released seat keeps counting against the slot cap. -/
def seatCooldownDays : Int := 14

/-- Upper bound of an entitlement's `slotCap`. -/
def maxChannelSlotCap : Nat := 100

def maxTextGroupGeneration : Nat := 63

/-! ## Groups -/

/-- A (user, device) pair, the unit of group membership. -/
structure MlsMemberDevice where
  userId : String
  deviceId : String
  deriving DecidableEq

inductive MlsGroupKind where
  | call
  | text
  deriving DecidableEq

/-- A user whose devices must leave a Text group. -/
structure MlsPendingRemoval where
  userId : String
  createdAt : Timestamp
  deriving DecidableEq

/-- When a member device of a Text group was last added. -/
structure MlsMemberAdded where
  userId : String
  deviceId : String
  epoch : Int
  at_ : Timestamp
  deriving DecidableEq

def MlsMemberAdded.device (entry : MlsMemberAdded) : MlsMemberDevice :=
  ⟨entry.userId, entry.deviceId⟩

/-- An MLS group: a per-call media group or a protected channel's Text group. -/
structure MlsGroup where
  id : String
  channelId : String
  open_ : Bool
  createdBy : MlsMemberDevice
  createdAt : Timestamp
  currentEpoch : Int
  members : List MlsMemberDevice
  closedAt : Option Timestamp
  supersededBy : Option String
  kind : MlsGroupKind
  generation : Option Nat
  seatListAdSha256 : Option String
  pendingRemovals : List MlsPendingRemoval
  memberAdded : List MlsMemberAdded
  deriving DecidableEq

namespace MlsGroup

/-- Whether a (user, device) is currently a member of this group. -/
def hasMember (group : MlsGroup) (userId deviceId : String) : Bool :=
  group.members.any fun member => member.userId == userId && member.deviceId == deviceId

/-- The first member entry of a user. -/
def memberDeviceOf (group : MlsGroup) (userId : String) : Option MlsMemberDevice :=
  group.members.find? fun member => member.userId == userId

/-- Whether a user has a pending removal on this group. -/
def hasPendingRemoval (group : MlsGroup) (userId : String) : Bool :=
  group.pendingRemovals.any fun pending => pending.userId == userId

variable {group : MlsGroup}

theorem hasMember_iff {userId deviceId : String} :
    group.hasMember userId deviceId = true ↔ (⟨userId, deviceId⟩ : MlsMemberDevice) ∈ group.members := by
  unfold hasMember
  rw [List.any_eq_true]
  constructor
  · rintro ⟨⟨u, d⟩, hmem, heq⟩
    simp only [Bool.and_eq_true, beq_iff_eq] at heq
    rw [← heq.1, ← heq.2]
    exact hmem
  · intro hmem
    exact ⟨_, hmem, by simp⟩

theorem hasPendingRemoval_iff {userId : String} :
    group.hasPendingRemoval userId = true ↔ ∃ p ∈ group.pendingRemovals, p.userId = userId := by
  simp [hasPendingRemoval]

end MlsGroup

/-! ## Commits and join intents -/

structure MlsJoinIntent where
  id : String
  groupId : String
  userId : String
  deviceId : String
  keyPackageRef : String
  signature : String
  createdAt : Timestamp
  deriving DecidableEq

/-- `{group_id}:{user_id}:{device_id}`. -/
def MlsJoinIntent.compositeId (groupId userId deviceId : String) : String :=
  joinColon groupId (joinColon userId deviceId)

/-- Which Remove rule admitted a removed device, as the route found it. -/
inductive MlsRemovalReason where
  | ownUser
  | pendingRemoval
  | offList
  | revoked
  | rejoin
  deriving DecidableEq

/-- The advisory reason for one device a Text commit removed. -/
structure MlsRemovedReason where
  userId : String
  deviceId : String
  reason : MlsRemovalReason
  deriving DecidableEq

/-- An arbitrated commit for one epoch of a group. -/
structure MlsCommit where
  id : String
  groupId : String
  epoch : Int
  committer : MlsMemberDevice
  commit : String
  size : Int
  added : List MlsMemberDevice
  removed : List MlsMemberDevice
  createdAt : Timestamp
  rejoinIntents : List MlsJoinIntent
  removedReasons : List MlsRemovedReason
  deriving DecidableEq

/-- `{group_id}:{epoch}`. -/
def MlsCommit.compositeId (groupId : String) (epoch : Int) : String := joinColon groupId epoch.repr

inductive MlsGroupCreateOutcome where
  | created
  | conflict (openGroupId channelId : String)
  deriving DecidableEq

inductive MlsCommitOutcome where
  | won
  | lost (winning : MlsCommit)
  deriving DecidableEq

/-- The roster after a commit's delta: the removed devices go, the added ones
are appended. -/
def applyDelta (members added removed : List MlsMemberDevice) : List MlsMemberDevice :=
  (members.filter fun member => !removed.contains member) ++ added

theorem mem_applyDelta {members added removed : List MlsMemberDevice} {d : MlsMemberDevice} :
    d ∈ applyDelta members added removed ↔ (d ∈ members ∧ d ∉ removed) ∨ d ∈ added := by
  simp [applyDelta]

/-! ## Entitlements, seats and seat lists -/

inductive ChannelEntitlementSource where
  | adminGrant
  | prot
  | crowdfund
  deriving DecidableEq

inductive ChannelEntitlementState where
  | active
  | grace
  | frozen
  | deleted
  deriving DecidableEq

/-- The admin-granted right to protect one channel. -/
structure ChannelEntitlement where
  id : String
  channelId : String
  serverId : String
  source : ChannelEntitlementSource
  slotCap : Nat
  deviceCap : Option Nat
  state : ChannelEntitlementState
  grantedBy : String
  createdAt : Timestamp
  deriving DecidableEq

/-- Whether seats may be claimed under the entitlement. -/
def ChannelEntitlement.isActive (entitlement : ChannelEntitlement) : Bool :=
  entitlement.state == .active

structure ChannelSeat where
  id : String
  channelId : String
  userId : String
  seatedAt : Timestamp
  releasedAt : Option Timestamp
  cooldownUntil : Option Timestamp
  deriving DecidableEq

namespace ChannelSeat

/-- `{channel_id}:{user_id}`. -/
def compositeId (channelId userId : String) : String := joinColon channelId userId

/-- A seat is active when it has not been released. -/
def isActive (seat : ChannelSeat) : Bool := seat.releasedAt.isNone

/-- A released seat is cooling while `now < cooldownUntil`. -/
def isCooling (seat : ChannelSeat) (now : Timestamp) : Bool :=
  seat.releasedAt.isSome && seat.cooldownUntil.any fun until_ => decide (now < until_)

/-- Seats used are the active and the cooling ones. -/
def countsAgainstCap (seat : ChannelSeat) (now : Timestamp) : Bool :=
  seat.isActive || seat.isCooling now

/-- Make this seat active again at `now`. -/
def reactivate (seat : ChannelSeat) (now : Timestamp) : ChannelSeat :=
  { seat with seatedAt := now, releasedAt := none, cooldownUntil := none }

end ChannelSeat

def seatCooldownUntil (now : Timestamp) : Result Timestamp :=
  Checks.okOr (Timestamp.checkedAdd now (Timestamp.days seatCooldownDays)) .internalError

/-- Release this seat at `now`, starting the cooldown. -/
def ChannelSeat.release (seat : ChannelSeat) (now : Timestamp) : Result ChannelSeat := do
  let until_ ← seatCooldownUntil now
  return { seat with releasedAt := some now, cooldownUntil := some until_ }

/-- Seats used (active and cooling) among `seats` at `now`. -/
def channelSeatsUsed (seats : List ChannelSeat) (now : Timestamp) : Nat :=
  (seats.filter fun seat => seat.countsAgainstCap now).length

structure SignedHandover where
  body : String
  signature : String
  deriving DecidableEq

/-- The channel's newest owner-signed seat list. -/
structure SeatList where
  id : String
  version : Int
  body : String
  signerUserId : String
  signerDeviceId : String
  signature : String
  handovers : List SignedHandover
  updatedAt : Timestamp
  deriving DecidableEq

structure SeatListSubmission where
  body : String
  signature : String
  signerDeviceId : String
  handover : Option SignedHandover

/-- What a protect or a seat PUT did. -/
structure SeatListWriteOutcome where
  list : SeatList
  unchanged : Bool
  claimed : List String
  released : List String
  pendingRemovalsAdded : List String
  deriving DecidableEq

/-! ## What the drivers read of other collections -/

/-- Voice settings of a channel. -/
structure VoiceInformation where
  maxUsers : Option Nat
  disabled : Bool
  deriving DecidableEq

/-- A channel, as far as protecting it depends on it. -/
inductive Channel where
  | textChannel (server : String) (lastMessageId : Option String)
      (voice : Option VoiceInformation) (announcement : Option Bool) (protected_ : Bool)
  | thread (parentChannel : String)
  | other
  deriving DecidableEq

/-- A server, as far as its owner is concerned. -/
structure Server where
  owner : String
  deriving DecidableEq

structure MemberCompositeKey where
  server : String
  user : String
  deriving DecidableEq

/-- A stored message, as far as its channel is concerned. -/
structure Message where
  channel : String
  deriving DecidableEq

/-- A queued E2EE envelope, as far as its group is concerned. -/
structure E2EEEnvelope where
  groupId : Option String
  deriving DecidableEq

/-- `E2EEIdentity::composite_id`: `{user_id}:{device_id}`. -/
def identityCompositeId (userId deviceId : String) : String := joinColon userId deviceId

/-! ## Seats over time -/

namespace ChannelSeat

variable {seat : ChannelSeat}

theorem countsAgainstCap_of_isActive (h : seat.isActive = true) (now : Timestamp)
    : seat.countsAgainstCap now = true := by
  simp [countsAgainstCap, h]

variable {now later : Timestamp}

theorem isCooling_antitone (hle : now ≤ later) (h : seat.isCooling later = true)
    : seat.isCooling now = true := by
  simp only [isCooling, Bool.and_eq_true, Option.any_eq_true, decide_eq_true_eq] at h ⊢
  obtain ⟨hrel, until_, hun, hlt⟩ := h
  exact ⟨hrel, until_, hun, lt_of_le_of_lt hle hlt⟩

theorem countsAgainstCap_antitone (hle : now ≤ later) (h : seat.countsAgainstCap later = true)
    : seat.countsAgainstCap now = true := by
  simp only [countsAgainstCap, Bool.or_eq_true] at h ⊢
  exact h.imp_right (isCooling_antitone hle)

@[simp] theorem reactivate_id (seat : ChannelSeat) (now : Timestamp) :
    (seat.reactivate now).id = seat.id := rfl

theorem release_eq_ok {seat' : ChannelSeat} (h : seat.release now = .ok seat') :
    seat'.id = seat.id ∧ seat'.channelId = seat.channelId ∧ seat'.userId = seat.userId ∧
      seat'.isActive = false := by
  unfold release at h
  simp only [Checks.bind_eq_ok, Checks.pure_eq_ok] at h
  obtain ⟨until_, -, rfl⟩ := h
  exact ⟨rfl, rfl, rfl, rfl⟩

end ChannelSeat

end SlogaBackend.Mls
