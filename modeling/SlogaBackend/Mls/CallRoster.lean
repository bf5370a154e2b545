import SlogaBackend.Mls.Coherence

/-!
# One device per user in a call

The delivery service is documented to enforce at most one device per user in a
group. Two layers share the work. The route checks a submission by itself
(`validateSubmission`): no (user, device) pair occurs twice in its lists. The driver
checks each added device against the roster *before* the commit (`checkCallAdds`): no
added user has a device there.

Neither looks at the users of the added devices among themselves, so one commit that
adds two devices of one new user passes both. `two_devices_of_one_user` runs it, and
`call_roster_one_device` shows that this is the only way: as long as no commit adds two
devices of one user, no call has two devices of one user.
-/

namespace SlogaBackend.Mls

open Checks ReferenceDb

/-! ## The route's request checks -/

def maxMlsCommitRawSize : Nat := 64 * 1024

def maxMlsWelcomeRawSize : Nat := 256 * 1024

/-- Base64 length of a raw size. -/
def encodedLen (raw : Nat) : Nat := (raw + 2) / 3 * 4

structure DataSubmitMlsCommit where
  deviceId : String
  epoch : Int
  commit : String
  welcome : Option String
  added : List MlsMemberDevice
  removed : List MlsMemberDevice

/-- A Welcome goes with added devices, and only with them. -/
def checkWelcome (welcome : Option String) (added : List MlsMemberDevice) : Result Unit :=
  match welcome, added with
  | some welcome, _ :: _ =>
    refuseIf (welcome.utf8ByteSize = 0 ∨ encodedLen maxMlsWelcomeRawSize < welcome.utf8ByteSize)
      .payloadTooLarge
  | none, [] => .ok ()
  | some _, [] => .error (failed "welcome without added devices")
  | none, _ :: _ => .error (failed "added devices require a welcome")

/-- Valid device ids, and no (user, device) pair twice. -/
def checkFanOut (seen : List MlsMemberDevice) : List MlsMemberDevice → Result Unit
  | [] => .ok ()
  | member :: rest => do
    refuseIf (isValidDeviceIdHex member.deviceId = false)
      (failed "invalid device id in fan-out list")
    refuseIf (member ∈ seen) (failed "duplicate device in fan-out lists")
    checkFanOut (member :: seen) rest

/-- The request checks of a submission. -/
def validateSubmission (data : DataSubmitMlsCommit) : Result Unit := do
  refuseIf (isValidDeviceIdHex data.deviceId = false)
    (failed "device_id must be 128 bits of lowercase hex")
  refuseIf (data.epoch < 1) (failed "epoch must be at least 1")
  refuseIf (data.commit.utf8ByteSize = 0 ∨
    encodedLen maxMlsCommitRawSize < data.commit.utf8ByteSize) .payloadTooLarge
  checkWelcome data.welcome data.added
  refuseIf (maxMlsGroupMembers < data.added.length ∨ maxMlsGroupMembers < data.removed.length)
    (failed "fan-out list too large")
  checkFanOut [] (data.added ++ data.removed)

/-- The commit the route builds from a submission. -/
def callCommitOf (data : DataSubmitMlsCommit) (groupId userId : String) (now : Timestamp) :
    MlsCommit where
  id := MlsCommit.compositeId groupId data.epoch
  groupId := groupId
  epoch := data.epoch
  committer := ⟨userId, data.deviceId⟩
  commit := data.commit
  size := (data.commit.utf8ByteSize * 3 / 4 : Nat)
  added := data.added
  removed := data.removed
  createdAt := now
  rejoinIntents := []
  removedReasons := []

/-! ## The runs -/

/-- What the route hands to the driver: Call groups with their creator only, and Call
commits of checked submissions. -/
def CallRouted (op : Op) : Prop :=
  (∀ group supersedes, op = .createMlsGroup group supersedes → group.members = [group.createdBy]) ∧
  ∀ commit, op = .insertMlsCommit commit → ∃ data groupId userId now,
    validateSubmission data = .ok () ∧ commit = callCommitOf data groupId userId now

/-- No commit adds two devices of one user. -/
def AddsDistinctUsers (op : Op) : Prop :=
  ∀ commit, op = .insertMlsCommit commit → (commit.added.map (·.userId)).Nodup

/-- Every Call group has at most one device of each user. -/
def OneDevicePerUser (db : ReferenceDb) : Prop :=
  ∀ k group, db.mlsGroups.get k = some group → group.kind = .call →
    (group.members.map (·.userId)).Nodup

variable {prim : Primitives} {db next : ReferenceDb} {op : Op}

theorem checkCallAdds_eq_ok {group : MlsGroup} {added : List MlsMemberDevice} {u : Unit}
    (h : checkCallAdds group added = .ok u) :
    ∀ a ∈ added, ∀ member ∈ group.members, member.userId ≠ a.userId := by
  induction added with
  | nil => exact nofun
  | cons b added ih =>
    rw [checkCallAdds] at h
    cases hm : group.memberDeviceOf b.userId with
    | some existing =>
      rw [hm] at h
      cases h
    | none =>
      rw [hm] at h
      intro a ha
      rcases mem_cons.mp ha with rfl | ha
      · intro member hmb heq
        exact absurd (List.find?_eq_none.mp hm member hmb) (by simp [heq])
      · exact ih h a ha

theorem nodup_applyCallCommit {group : MlsGroup} {commit : MlsCommit}
    (hold : (group.members.map (·.userId)).Nodup)
    (had : checkCallAdds group commit.added = .ok ())
    (hdist : (commit.added.map (·.userId)).Nodup) :
    ((applyCallCommit group commit).members.map (·.userId)).Nodup := by
  unfold applyCallCommit applyDelta
  rw [map_append, nodup_append]
  refine ⟨hold.sublist (List.filter_sublist.map _), hdist, fun u hu v hv huv => ?_⟩
  obtain ⟨member, hmb, rfl⟩ := mem_map.mp hu
  obtain ⟨a, ha, rfl⟩ := mem_map.mp hv
  exact checkCallAdds_eq_ok had a ha member (mem_filter.mp hmb).1 huv

/-- What holds of a roster of one device, and is kept by the Call commits that win, is kept of the
Call rosters. -/
theorem callRosters_step {P : List MlsMemberDevice → Prop} (h : Step prim db op next)
    (hk : GroupsKeyed db) (hrout : CallRouted op) (hnew : ∀ d, P [d])
    (hcom : ∀ commit group, op = .insertMlsCommit commit →
      checkCallAdds group commit.added = .ok () → checkCallCeiling group commit = .ok () →
      P group.members → P (applyCallCommit group commit).members)
    (hi : ∀ k group, db.mlsGroups.get k = some group → group.kind = .call → P group.members) :
    ∀ k group, next.mlsGroups.get k = some group → group.kind = .call → P group.members := by
  intro k g' hget hcl
  have hst := h.group hk k
  rw [hget] at hst
  generalize hrow : some g' = row at hst
  cases hst with
  | same => exact hi k g' hrow.symm hcl
  | bound _ _ _ hold | superseded hold _ | pended hold _ | closed hold _ =>
    rw [some.inj hrow] at hcl ⊢
    exact (hi _ _ hold hcl :)
  | createdText hcr =>
    rw [some.inj hrow, hcr.is_prepared.kind_eq] at hcl
    cases hcl
  | @createdCall group supersedes closed _ =>
    rw [some.inj hrow, hrout.1 group supersedes rfl]
    exact hnew _
  | deleted _ _ | swept _ _ => cases hrow
  | @callCommitted commit group hold hkn hep had =>
    rw [some.inj hrow]
    cases h with
    | same =>
      -- a commit that loses leaves the epoch, which the row has moved past
      rw [hold] at hget
      have := congrArg (·.currentEpoch) ((some.inj hget).trans (some.inj hrow))
      simp only [applyCallCommit, hep] at this
      omega
    | listWrite hinp => cases hinp
    | callCommit hget' _ _ _ _ hceil _ =>
      cases hold.symm.trans hget'
      exact hcom commit group rfl had hceil (hi _ _ hold hkn)
  | textCommitted _ _ hacc =>
    rw [some.inj hrow] at hcl
    cases hacc.kind_text.symm.trans hcl

/-- Over a whole run. -/
theorem callRosters_run {P : List MlsMemberDevice → Prop} {admits : ReferenceDb → Op → Prop}
    (h : Reachable (exec prim) admits .empty db) (hrout : ∀ s op, admits s op → CallRouted op)
    (hnew : ∀ d, P [d]) (hcom : ∀ s commit group, admits s (.insertMlsCommit commit) →
      checkCallAdds group commit.added = .ok () → checkCallCeiling group commit = .ok () →
      P group.members → P (applyCallCommit group commit).members) : GroupsKeyed db ∧
      ∀ k group, db.mlsGroups.get k = some group → group.kind = .call → P group.members := by
  refine h.invariant (P := fun s => GroupsKeyed s ∧
      ∀ k group, s.mlsGroups.get k = some group → group.kind = .call → P group.members)
    (fun s op hop hs => ⟨groupsKeyed_step (step_exec prim s op) hs.1, ?_⟩)
    ⟨(coherent_empty prim).groups_keyed, fun k g hg => absurd hg (by simp [ReferenceDb.empty])⟩
  refine callRosters_step (step_exec prim s op) hs.1 (hrout s op hop) hnew ?_ hs.2
  rintro commit group rfl
  exact hcom s commit group hop

/-- **One device per user, as long as no commit adds two of one user.** In every run of
what the route hands to the driver in which every commit adds devices of pairwise
distinct users, no Call group of any store reached has two devices of one user. -/
theorem call_roster_one_device
    (h : Reachable (exec prim) (fun _ op => CallRouted op ∧ AddsDistinctUsers op) .empty db) :
    ∀ group ∈ db.mlsGroups.values, group.kind = .call → (group.members.map (·.userId)).Nodup := by
  have hboth : GroupsKeyed db ∧ OneDevicePerUser db :=
    callRosters_run (P := fun members => (members.map MlsMemberDevice.userId).Nodup) h
      (fun _ _ hop => hop.1) (fun _ => nodup_singleton _)
      fun _ commit _ hop hadds _ hold => nodup_applyCallCommit hold hadds (hop.2 commit rfl)
  intro group hmem hcall
  exact hboth.2 group.id group (hboth.1.get_of_mem hmem) hcall

/-! ## The commit that breaks it -/

namespace Sample

/-- A call as its creator opens it. -/
def call : MlsGroup :=
  { group with
    id := "ffffffffffffffffffffffffffffffffffffffffffffffffffffffffffffffff"
    kind := .call
    generation := none }

def callSubmission (added : List MlsMemberDevice) : DataSubmitMlsCommit :=
  ⟨owner.deviceId, 1, "Y29tbWl0", some "d2VsY29tZQ", added, []⟩

/-- The guest's second device. -/
def guestTablet : MlsMemberDevice := ⟨guest.userId, "0123456789abcdef0123456789abcdef"⟩

/-- The call is created, and a commit adds devices to it. -/
def callOps (added : List MlsMemberDevice) : List Op :=
  [.createMlsGroup call none,
    .insertMlsCommit (callCommitOf (callSubmission added) call.id owner.userId
      (seconds 3))]

end Sample

open Sample

theorem callRouted_callOps {added : List MlsMemberDevice}
    (h : validateSubmission (callSubmission added) = .ok ()) :
    ∀ op ∈ callOps added, CallRouted op := by
  intro op hop
  rcases mem_cons.mp hop with rfl | hop
  · refine ⟨fun group supersedes heq => ?_, fun commit heq => absurd heq (by simp)⟩
    cases heq
    rfl
  · rw [mem_singleton] at hop
    subst hop
    refine ⟨fun group supersedes heq => absurd heq (by simp), fun commit heq => ?_⟩
    cases heq
    exact ⟨_, _, _, _, h, rfl⟩

/-- **Two devices of one user in a call.** The creator's commit that adds both devices
of the guest passes the route's checks and the driver's. -/
theorem two_devices_of_one_user :
    validateSubmission (callSubmission [guest, guestTablet]) = .ok () ∧
    (∀ op ∈ callOps [guest, guestTablet], CallRouted op) ∧
    ∃ group ∈ (execAll (exec primitives) .empty
        (callOps [guest, guestTablet])).mlsGroups.values,
      group.kind = .call ∧ ¬ (group.members.map (·.userId)).Nodup := by
  have hvalid : validateSubmission
      (callSubmission [guest, guestTablet]) = .ok () := by
    decide
  refine ⟨hvalid, callRouted_callOps hvalid, ?_⟩
  decide

/-- With one device of the guest the call keeps one device per user. -/
theorem call_roster_one_device_guest : ∃ group ∈ (execAll (exec primitives) .empty
        (callOps [guest])).mlsGroups.values,
      group.kind = .call ∧ group.members = [owner, guest] ∧
        (group.members.map (·.userId)).Nodup := by
  have hvalid : validateSubmission (callSubmission [guest]) = .ok () := by decide
  have hrouted := callRouted_callOps hvalid
  have hreach : Reachable (exec primitives)
      (fun _ op => CallRouted op ∧ AddsDistinctUsers op) .empty
      (execAll (exec primitives) .empty (callOps [guest])) := by
    refine Reachable.of_admitsAll ⟨⟨hrouted _ mem_cons_self, ?_⟩,
      ⟨hrouted _ (mem_cons_of_mem _ mem_cons_self), ?_⟩, trivial⟩
    · exact nofun
    · intro commit heq
      cases heq
      decide
  obtain ⟨group, hmem, hcall, hmembers⟩ : ∃ group ∈ (execAll (exec primitives) .empty
      (callOps [guest])).mlsGroups.values,
      group.kind = .call ∧ group.members = [owner, guest] := by
    decide
  exact ⟨group, hmem, hcall, hmembers, call_roster_one_device hreach group hmem hcall⟩

end SlogaBackend.Mls
