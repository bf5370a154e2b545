import SlogaBackend.Mls.SeatList

/-!
# Planning a Text commit

`plan_mls_text_commit` of `models/mls/ops.rs`: the validity checks of a commit to
a protected channel's Text group and the effects to apply, as one pure function
shared by both drivers.

The Remove rule is `admitRemoval`, one removed device at a time: rules 2 to 5
(`otherRule`) never apply to the current list signer's device, and rule 6 (the
device's own rejoin intent) is what remains. The Add rule is `admitAdd`.
`planMlsTextCommit_spec` states what an accepted commit guarantees and what its
plan consists of.
-/

namespace SlogaBackend.Mls

open Checks

structure MlsTextCommitPlan where
  stored : MlsCommit
  members : List MlsMemberDevice
  memberAdded : List MlsMemberAdded
  clearedPending : List String
  consumedIntentIds : List String
  deriving DecidableEq

/-- `FailedValidation` with a text. -/
def failed (error : String) : Error := .failedValidation error

/-- `ProtectedChannelResecuring` with a reason. -/
def resecuring (reason : String) : Error := .protectedChannelResecuring reason

/-- `min(signed, entitlement)` where `0` means unlimited in either operand. -/
def mlsTextEnforcedDeviceCap (signed entitlement : Nat) : Nat :=
  if signed = 0 then entitlement else if entitlement = 0 then signed else min signed entitlement

/-- The first device that occurs a second time, reading left to right. -/
def firstDuplicate (seen : List MlsMemberDevice) : List MlsMemberDevice → Option MlsMemberDevice
  | [] => none
  | device :: rest => if device ∈ seen then some device else firstDuplicate (device :: seen) rest

/-- Declarations: no device twice, no device both added and removed. -/
def checkDeclarations (added removed : List MlsMemberDevice) : Result Unit :=
  match firstDuplicate [] (added ++ removed) with
  | none => .ok ()
  | some device =>
    if device ∈ added ∧ device ∈ removed then .error (failed "device is both added and removed")
    else .error (failed "duplicate device in fan-out lists")

/-- Whether a device is the current list signer's. -/
def isSignerDevice (signed : SeatListBody) (device : MlsMemberDevice) : Bool :=
  device.userId == signed.signerUserId && device.deviceId == signed.signerDeviceId

/-- Rules 2 to 5 of the Remove rule: the committer's own user, a pending removal, a
revoked identity, or a user off the list removed by the signer. None applies to
the current list signer's device. -/
def otherRule (group : MlsGroup) (signed : SeatListBody) (revokedIdentities : List String)
    (committer removed : MlsMemberDevice) : Bool :=
  !isSignerDevice signed removed && (removed.userId == committer.userId ||
      group.hasPendingRemoval removed.userId ||
      revokedIdentities.contains (identityCompositeId removed.userId removed.deviceId) ||
      (isSignerDevice signed committer && !signed.seats.contains removed.userId))

/-- The stored intent of exactly this device for this group. -/
def findIntent (group : MlsGroup) (storedIntents : List MlsJoinIntent)
    (removed : MlsMemberDevice) : Option MlsJoinIntent :=
  storedIntents.find? fun intent =>
    intent.id == MlsJoinIntent.compositeId group.id removed.userId removed.deviceId &&
      intent.groupId == group.id && intent.userId == removed.userId &&
      intent.deviceId == removed.deviceId

/-- When the device was last added, by the group's own record. -/
def addedAt (group : MlsGroup) (device : MlsMemberDevice) : Option Timestamp :=
  (group.memberAdded.find? fun entry =>
    entry.userId == device.userId && entry.deviceId == device.deviceId).map (·.at_)

/-- The Remove rule for one device: `none` under rules 2 to 5, the justifying intent
under rule 6. -/
def admitRemoval (group : MlsGroup) (signed : SeatListBody) (storedIntents : List MlsJoinIntent)
    (revokedIdentities : List String) (committer : MlsMemberDevice) (windowStart : Timestamp)
    (removed : MlsMemberDevice) : Result (Option MlsJoinIntent) := do
  refuseIf (group.hasMember removed.userId removed.deviceId = false)
    (failed "removed device is not a member")
  refuseIf (removed.userId = committer.userId ∧ removed.deviceId = committer.deviceId)
    (failed "a device cannot remove itself")
  if otherRule group signed revokedIdentities committer removed then
    return none
  else
    match findIntent group storedIntents removed, addedAt group removed with
    | some intent, some at_ =>
      if windowStart ≤ intent.createdAt ∧ at_ < intent.createdAt then return some intent
      else .error (failed "removal not permitted")
    | _, _ => .error (failed "removal not permitted")

/-- The Remove rule over the removed devices, in order. -/
def admitRemovals (group : MlsGroup) (signed : SeatListBody) (storedIntents : List MlsJoinIntent)
    (revokedIdentities : List String) (committer : MlsMemberDevice) (windowStart : Timestamp) :
    List MlsMemberDevice → Result (List MlsJoinIntent)
  | [] => .ok []
  | removed :: rest => do
    let justified ← admitRemoval group signed storedIntents revokedIdentities committer
      windowStart removed
    let others ← admitRemovals group signed storedIntents revokedIdentities committer
      windowStart rest
    return justified.toList ++ others

/-- The Add rule for one device: not a member, actively seated, and on the list. -/
def admitAdd (group : MlsGroup) (signed : SeatListBody) (activeSeatUsers : List String)
    (added : MlsMemberDevice) : Result Unit := do
  refuseIf (group.hasMember added.userId added.deviceId = true)
    (failed "added device is already a member")
  refuseIf (added.userId ∉ activeSeatUsers) .notSeated
  refuseIf (added.userId ∉ signed.seats) (failed "added user is not seated")

/-- The Add rule over the added devices, in order. -/
def admitAdds (group : MlsGroup) (signed : SeatListBody) (activeSeatUsers : List String) :
    List MlsMemberDevice → Result Unit
  | [] => .ok ()
  | added :: rest => do
    admitAdd group signed activeSeatUsers added
    admitAdds group signed activeSeatUsers rest

/-- The enforced device cap, for every user the commit adds a device for. -/
def checkDeviceCap (cap : Nat) (members : List MlsMemberDevice) : List MlsMemberDevice → Result Unit
  | [] => .ok ()
  | added :: rest => do
    refuseIf (cap < (members.filter fun member => member.userId == added.userId).length)
      (.deviceCapReached cap)
    checkDeviceCap cap members rest

def checkEnforcedCap (cap : Nat) (members added : List MlsMemberDevice) : Result Unit :=
  if cap = 0 then .ok () else checkDeviceCap cap members added

/-- The newest stored list, through the strict parser, matched with its channel and
signer. -/
def checkStoredList (group : MlsGroup) (seatList : Option SeatList) : Result SeatListBody := do
  let seatList ← okOr seatList (failed "channel has no seat list")
  let signed ← mapErr (SeatListBody.parse seatList.body) (failed "stored seat list is malformed")
  refuseIf (signed.channelId ≠ group.channelId ∨ seatList.id ≠ group.channelId ∨
      signed.signerUserId ≠ seatList.signerUserId ∨
      signed.signerDeviceId ≠ seatList.signerDeviceId)
    (failed "stored seat list does not match its channel or signer")
  return signed

/-- `memberAdded` after a commit: removed entries dropped, added entries appended. -/
def memberAddedAfter (group : MlsGroup) (commit : MlsCommit) : List MlsMemberAdded :=
  (group.memberAdded.filter fun entry => !commit.removed.any fun removed =>
      removed.userId == entry.userId && removed.deviceId == entry.deviceId) ++
    commit.added.map fun added =>
      { userId := added.userId, deviceId := added.deviceId, epoch := commit.epoch,
        at_ := commit.createdAt }

/-- Every pending entry whose user has no member device left. -/
def clearedPendingAfter (group : MlsGroup) (members : List MlsMemberDevice) : List String :=
  (group.pendingRemovals.filter fun pending =>
    !members.any fun member => member.userId == pending.userId).map (·.userId)

/-- The intents a commit consumes: those of the added devices and the rejoin ones. -/
def consumedIntents (group : MlsGroup) (commit : MlsCommit) (rejoinIntents : List MlsJoinIntent) :
    List String :=
  (commit.added.map fun added => MlsJoinIntent.compositeId group.id added.userId added.deviceId) ++
    rejoinIntents.map (·.id)

/-- Text commit validity checks and the effects to apply. The existing-row check
has already run. -/
def planMlsTextCommit (group : MlsGroup) (commit : MlsCommit) (adSha256 : String)
    (seatList : Option SeatList) (entitlementDeviceCap : Nat)
    (storedIntents : List MlsJoinIntent) (revokedIdentities activeSeatUsers : List String) :
    Result MlsTextCommitPlan := do
  refuseIf (group.kind ≠ .text) .invalidOperation
  refuseIf (commit.groupId ≠ group.id) (failed "commit targets another group")
  refuseIf (group.open_ = false) (failed "group is closed")
  refuseIf (group.hasMember commit.committer.userId commit.committer.deviceId = false)
    (resecuring "not_member")
  -- an epoch at or below the current one whose row is gone was pruned
  refuseIf (commit.epoch ≤ group.currentEpoch) .notFound
  refuseIf (commit.epoch ≠ group.currentEpoch + 1)
    (failed "commit epoch must be exactly current_epoch + 1")
  refuseIf (group.seatListAdSha256 ≠ some adSha256) (resecuring "stale_seat_list")
  let signed ← checkStoredList group seatList
  checkDeclarations commit.added commit.removed
  refuseIf (commit.added ≠ [] ∧ group.pendingRemovals ≠ []) (resecuring "pending_removal")
  let windowStart ← okOr (Timestamp.checkedSub commit.createdAt
    (seconds mlsRejoinOutstandingWindowSeconds)) (failed "invalid commit time")
  let rejoinIntents ← admitRemovals group signed storedIntents revokedIdentities commit.committer
    windowStart commit.removed
  admitAdds group signed activeSeatUsers commit.added
  let members := applyDelta group.members commit.added commit.removed
  refuseIf (maxMlsTextGroupMembers < members.length) (.mlsCallFull maxMlsTextGroupMembers)
  checkEnforcedCap (mlsTextEnforcedDeviceCap signed.deviceCap entitlementDeviceCap) members
    commit.added
  return {
    stored := { commit with
      id := MlsCommit.compositeId commit.groupId commit.epoch
      rejoinIntents := rejoinIntents }
    members := members
    memberAdded := memberAddedAfter group commit
    clearedPending := clearedPendingAfter group members
    consumedIntentIds := consumedIntents group commit rejoinIntents }

/-! ## What the loops check -/

theorem firstDuplicate_eq_none {l seen : List MlsMemberDevice} :
    firstDuplicate seen l = none → l.Nodup ∧ ∀ d ∈ l, d ∉ seen := by
  induction l generalizing seen with
  | nil => exact fun _ => ⟨List.nodup_nil, by simp⟩
  | cons a l ih =>
    intro h
    rw [firstDuplicate] at h
    split at h
    · cases h
    · rename_i hsn
      obtain ⟨hnd, hout⟩ := ih h
      refine ⟨List.nodup_cons.mpr ⟨fun hmem => ?_, hnd⟩, fun d hd => ?_⟩
      · exact hout a hmem List.mem_cons_self
      · rcases List.mem_cons.mp hd with rfl | hmem
        · exact hsn
        · exact fun hs => hout d hmem (List.mem_cons_of_mem _ hs)

variable {added removed : List MlsMemberDevice} {signed : SeatListBody}
  {activeSeatUsers revokedIdentities : List String} {storedIntents rejoin : List MlsJoinIntent}
  {windowStart : Timestamp}

theorem checkDeclarations_eq_ok {u : Unit} (h : checkDeclarations added removed = .ok u) :
    (added ++ removed).Nodup := by
  unfold checkDeclarations at h
  cases hd : firstDuplicate [] (added ++ removed) with
  | none => exact (firstDuplicate_eq_none hd).1
  | some d =>
    rw [hd] at h
    dsimp only at h
    split at h <;> cases h

theorem admitAdds_eq_ok {group : MlsGroup} {u : Unit}
    (h : admitAdds group signed activeSeatUsers added = .ok u) :
    ∀ d ∈ added, d ∉ group.members ∧ d.userId ∈ activeSeatUsers ∧ d.userId ∈ signed.seats := by
  induction added with
  | nil => simp
  | cons a added ih =>
    rw [admitAdds, bind_eq_ok] at h
    obtain ⟨_, ha, hrs⟩ := h
    simp only [admitAdd, bind_eq_ok, refuseIf_eq_ok, not_not] at ha
    obtain ⟨_, hmem, _, hact, hseat⟩ := ha
    intro d hd
    rcases List.mem_cons.mp hd with rfl | hd
    · exact ⟨fun hm => hmem (MlsGroup.hasMember_iff.mpr hm), hact, hseat⟩
    · exact ih hrs d hd

/-- How the Remove rule came to admit a device. -/
structure RemovalAdmitted (group : MlsGroup) (signed : SeatListBody)
    (storedIntents : List MlsJoinIntent) (revokedIdentities : List String)
    (commit : MlsCommit) (rejoinIntents : List MlsJoinIntent) (removed : MlsMemberDevice) :
    Prop where
  was_member : removed ∈ group.members
  not_self : removed ≠ commit.committer
  reason : otherRule group signed revokedIdentities commit.committer removed = true ∨
    ∃ intent at_, findIntent group storedIntents removed = some intent ∧
      addedAt group removed = some at_ ∧
      commit.createdAt - seconds mlsRejoinOutstandingWindowSeconds ≤ intent.createdAt ∧
      at_ < intent.createdAt ∧ intent ∈ rejoinIntents

section

variable {group : MlsGroup} {commit : MlsCommit}

theorem admitRemoval_eq_ok {removed : MlsMemberDevice} {justified : Option MlsJoinIntent}
    (hwin : windowStart = commit.createdAt - seconds mlsRejoinOutstandingWindowSeconds)
    (h : admitRemoval group signed storedIntents revokedIdentities commit.committer windowStart
      removed = .ok justified) :
    RemovalAdmitted group signed storedIntents revokedIdentities commit justified.toList
      removed := by
  simp only [admitRemoval, bind_eq_ok, refuseIf_eq_ok] at h
  obtain ⟨_, hmem, _, hsl, h⟩ := h
  refine ⟨?_, ?_, ?_⟩
  · exact MlsGroup.hasMember_iff.mp (by simpa using hmem)
  · intro heq
    exact hsl (by rw [heq]; exact ⟨rfl, rfl⟩)
  · split at h
    · rename_i hrl
      exact .inl hrl
    · split at h
      · rename_i intent at_ hi ha
        split at h
        · rename_i hcn
          rw [pure_eq_ok] at h
          subst h
          exact .inr ⟨intent, at_, hi, ha, hwin ▸ hcn.1, hcn.2, by simp⟩
        · cases h
      · cases h

theorem RemovalAdmitted.mono {rejoin' : List MlsJoinIntent}
    {removed : MlsMemberDevice} (hsub : rejoin ⊆ rejoin')
    (h : RemovalAdmitted group signed storedIntents revokedIdentities commit rejoin removed) :
    RemovalAdmitted group signed storedIntents revokedIdentities commit rejoin' removed where
  was_member := h.was_member
  not_self := h.not_self
  reason := h.reason.imp_right fun ⟨intent, at_, hi, ha, hw, hlt, hmem⟩ =>
    ⟨intent, at_, hi, ha, hw, hlt, hsub hmem⟩

theorem admitRemovals_eq_ok
    (hwin : windowStart = commit.createdAt - seconds mlsRejoinOutstandingWindowSeconds)
    (h : admitRemovals group signed storedIntents revokedIdentities commit.committer windowStart
      removed = .ok rejoin) : ∀ d ∈ removed,
      RemovalAdmitted group signed storedIntents revokedIdentities commit rejoin d := by
  induction removed generalizing rejoin with
  | nil => simp
  | cons a removed ih =>
    simp only [admitRemovals, bind_eq_ok, pure_eq_ok] at h
    obtain ⟨justified, ha, others, hrs, rfl⟩ := h
    intro d hd
    rcases List.mem_cons.mp hd with rfl | hd
    · exact (admitRemoval_eq_ok hwin ha).mono (List.subset_append_left _ _)
    · exact (ih hrs d hd).mono (List.subset_append_right _ _)

/-- An intent that justified a removal. -/
structure RejoinJustified (group : MlsGroup) (storedIntents : List MlsJoinIntent)
    (commit : MlsCommit) (intent : MlsJoinIntent) (removed : MlsMemberDevice) : Prop where
  found : findIntent group storedIntents removed = some intent
  in_window : commit.createdAt - seconds mlsRejoinOutstandingWindowSeconds ≤
    intent.createdAt
  after_add : ∃ at_, addedAt group removed = some at_ ∧ at_ < intent.createdAt

theorem admitRemoval_eq_some {removed : MlsMemberDevice} {intent : MlsJoinIntent}
    (hwin : windowStart = commit.createdAt - seconds mlsRejoinOutstandingWindowSeconds)
    (h : admitRemoval group signed storedIntents revokedIdentities commit.committer windowStart
      removed = .ok (some intent)) : RejoinJustified group storedIntents commit intent removed := by
  simp only [admitRemoval, bind_eq_ok, refuseIf_eq_ok] at h
  obtain ⟨_, -, _, -, h⟩ := h
  split at h
  · cases pure_eq_ok.mp h
  · split at h
    · rename_i at_ hi ha
      split at h
      · rename_i hcn
        cases pure_eq_ok.mp h
        exact ⟨hi, hwin ▸ hcn.1, at_, ha, hcn.2⟩
      · cases h
    · cases h

theorem admitRemovals_rejoin
    (hwin : windowStart = commit.createdAt - seconds mlsRejoinOutstandingWindowSeconds)
    (h : admitRemovals group signed storedIntents revokedIdentities commit.committer windowStart
      removed = .ok rejoin) :
    ∀ intent ∈ rejoin, ∃ d ∈ removed, RejoinJustified group storedIntents commit intent d := by
  induction removed generalizing rejoin with
  | nil =>
    rw [admitRemovals, ok_eq_ok] at h
    rw [← h]
    exact nofun
  | cons a removed ih =>
    simp only [admitRemovals, bind_eq_ok, pure_eq_ok] at h
    obtain ⟨justified, ha, others, hrs, rfl⟩ := h
    intro intent hmem
    rcases List.mem_append.mp hmem with hfst | hoths
    · obtain rfl : justified = some intent := by simpa using hfst
      exact ⟨a, List.mem_cons_self, admitRemoval_eq_some hwin ha⟩
    · obtain ⟨d, hd, hjs⟩ := ih hrs intent hoths
      exact ⟨d, List.mem_cons_of_mem _ hd, hjs⟩

end

/-! ## The specification -/

structure TextCommitAccepted (group : MlsGroup) (commit : MlsCommit) (adSha256 : String)
    (list : SeatList) (signed : SeatListBody) (storedIntents : List MlsJoinIntent)
    (revokedIdentities activeSeatUsers : List String) (plan : MlsTextCommitPlan) : Prop where
  kind_text : group.kind = .text
  group_id : commit.groupId = group.id
  is_open : group.open_ = true
  epoch_eq : commit.epoch = group.currentEpoch + 1
  hash_eq : group.seatListAdSha256 = some adSha256
  parsed : SeatListBody.parse list.body = .ok signed
  channel_eq : signed.channelId = group.channelId
  signer_user : signed.signerUserId = list.signerUserId
  signer_device : signed.signerDeviceId = list.signerDeviceId
  nodup : (commit.added ++ commit.removed).Nodup
  no_pending : commit.added = [] ∨ group.pendingRemovals = []
  removals : ∀ d ∈ commit.removed, RemovalAdmitted group signed storedIntents revokedIdentities
    commit plan.stored.rejoinIntents d
  rejoins : ∀ intent ∈ plan.stored.rejoinIntents, ∃ d ∈ commit.removed,
    RejoinJustified group storedIntents commit intent d
  adds : ∀ d ∈ commit.added,
    d ∉ group.members ∧ d.userId ∈ activeSeatUsers ∧ d.userId ∈ signed.seats
  members_eq : plan.members = applyDelta group.members commit.added commit.removed
  members_le : plan.members.length ≤ maxMlsTextGroupMembers
  memberAdded_eq : plan.memberAdded = memberAddedAfter group commit
  cleared_eq : plan.clearedPending = clearedPendingAfter group plan.members
  consumed_eq : plan.consumedIntentIds = consumedIntents group commit plan.stored.rejoinIntents
  stored_eq : plan.stored = { commit with
    id := MlsCommit.compositeId commit.groupId commit.epoch
    rejoinIntents := plan.stored.rejoinIntents }

variable {seatList : Option SeatList}

theorem checkStoredList_eq_ok {group : MlsGroup} (h : checkStoredList group seatList = .ok signed) :
    ∃ list, seatList = some list ∧ SeatListBody.parse list.body = .ok signed ∧
      signed.channelId = group.channelId ∧ signed.signerUserId = list.signerUserId ∧
      signed.signerDeviceId = list.signerDeviceId := by
  simp only [checkStoredList, bind_eq_ok, okOr_eq_ok, mapErr_eq_ok, refuseIf_eq_ok, pure_eq_ok] at h
  obtain ⟨list, hls, signed', hprs, _, hmat, rfl⟩ := h
  simp only [ne_eq, not_or, not_not] at hmat
  exact ⟨list, hls, hprs, hmat.1, hmat.2.2.1, hmat.2.2.2⟩

/-- **An accepted Text commit meets its specification.** -/
theorem planMlsTextCommit_spec {group : MlsGroup} {commit : MlsCommit} {adSha256 : String}
    {entitlementDeviceCap : Nat} {plan : MlsTextCommitPlan}
    (h : planMlsTextCommit group commit adSha256 seatList entitlementDeviceCap storedIntents
      revokedIdentities activeSeatUsers = .ok plan) :
    ∃ list signed, seatList = some list ∧ TextCommitAccepted group commit adSha256 list signed
      storedIntents revokedIdentities activeSeatUsers plan := by
  simp only [planMlsTextCommit, bind_eq_ok, okOr_eq_ok, refuseIf_eq_ok, pure_eq_ok] at h
  obtain ⟨_, hkn, _, hgr, _, hop, _, _, _, _, _, hep, _, hhs, signed, hls, _, hdc,
    _, hpend, windowStart, hwin, rejoin, hrem, _, had, _, hlen, _, _, rfl⟩ := h
  obtain ⟨list, hsm, hprs, hch, hsu, hsd⟩ := checkStoredList_eq_ok hls
  have hw := Timestamp.checkedSub_eq_some hwin
  refine ⟨list, signed, hsm, ?_⟩
  exact {
    kind_text := not_not.mp hkn
    group_id := not_not.mp hgr
    is_open := by simpa using hop
    epoch_eq := not_not.mp hep
    hash_eq := not_not.mp hhs
    parsed := hprs
    channel_eq := hch
    signer_user := hsu
    signer_device := hsd
    nodup := checkDeclarations_eq_ok hdc
    no_pending := by
      rw [not_and_or, not_not, not_not] at hpend
      exact hpend
    removals := admitRemovals_eq_ok hw hrem
    rejoins := admitRemovals_rejoin hw hrem
    adds := admitAdds_eq_ok had
    members_eq := rfl
    members_le := not_lt.mp hlen
    memberAdded_eq := rfl
    cleared_eq := rfl
    consumed_eq := rfl
    stored_eq := rfl }

end SlogaBackend.Mls
