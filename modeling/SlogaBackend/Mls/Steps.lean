import SlogaBackend.Mls.Reference

/-!
# What one step of the Reference driver can do

`Step prim db op next` lists, once and for all, the ways an operation changes the
store, each with the checks that let it through. `step_exec` says that `exec` does
nothing else. The invariants and the histories of the later modules are proved by
cases on `Step`; none of them unfolds an operation.

Two of the changes are large enough to have a specification of their own: creating
a Text group (`TextCreate`) and creating a Call group (`CallCreate`).
-/

namespace SlogaBackend.Mls

open Checks

/-! ## Creating groups -/

/-- What a prepared Text group is. -/
structure Prepared (prim : Primitives) (group : MlsGroup) (list : SeatList)
    (prepared : MlsGroup) : Prop where
  id_eq : prepared.id = group.id
  channel_eq : prepared.channelId = group.channelId
  kind_eq : prepared.kind = .text
  open_eq : prepared.open_ = true
  closed_eq : prepared.closedAt = none
  epoch_eq : prepared.currentEpoch = 0
  members_eq : prepared.members = [prepared.createdBy]
  creator_eq : prepared.createdBy = group.createdBy
  signer_user : prepared.createdBy.userId = list.signerUserId
  signer_device : prepared.createdBy.deviceId = list.signerDeviceId
  hash_eq : ∃ sha256, list.commitAdSha256 prim = .ok sha256 ∧
    prepared.seatListAdSha256 = some sha256
  pending_eq : prepared.pendingRemovals = []
  added_eq : prepared.memberAdded =
    [⟨group.createdBy.userId, group.createdBy.deviceId, 0, group.createdAt⟩]
  createdAt_eq : prepared.createdAt = group.createdAt
  generation_eq : prepared.generation = group.generation

variable {group : MlsGroup} {channelId : String} {prepared : MlsGroup} {allowClaims : Bool}

theorem prepared_of_prepareTextGroup {prim : Primitives} {list : SeatList}
    (h : prepareTextGroup prim group list = .ok prepared) : Prepared prim group list prepared := by
  simp only [prepareTextGroup, bind_eq_ok, refuseIf_eq_ok, pure_eq_ok] at h
  obtain ⟨_, -, _, hst, _, hmbs, _, hsig, sha256, hsha, rfl⟩ := h
  simp only [not_or, Bool.not_eq_false, not_not, Option.isSome_iff_ne_none] at hst hmbs hsig
  obtain ⟨hon, hep, hcl, -⟩ := hst
  exact {
    id_eq := rfl
    channel_eq := rfl
    kind_eq := rfl
    open_eq := hon
    closed_eq := hcl
    epoch_eq := hep
    members_eq := hmbs
    creator_eq := rfl
    signer_user := hsig.1
    signer_device := hsig.2
    hash_eq := ⟨sha256, hsha, rfl⟩
    pending_eq := rfl
    added_eq := rfl
    createdAt_eq := rfl
    generation_eq := rfl }

structure TextCreate (prim : Primitives) (db : ReferenceDb) (group : MlsGroup)
    (supersedes : Option String) (list : SeatList) (prepared : MlsGroup) (squat : Bool) :
    Prop where
  list_get : db.channelSeatLists.get group.channelId = some list
  is_prepared : Prepared prim group list prepared
  only_open : ∀ open_, db.openTextGroup group.channelId = some open_ → supersedes = some open_.id
  superseded : ∀ id, supersedes = some id → ∃ old, db.mlsGroups.get id = some old ∧
    old.kind = .text ∧ old.channelId = group.channelId
  id_free : (squat = false ∧ db.mlsGroups.get prepared.id = none) ∨
    (squat = true ∧ ∃ taken, db.mlsGroups.get prepared.id = some taken ∧ taken.kind = .call)

theorem checkTextSuccessor_eq_ok {superseded successor : MlsGroup} {u : Unit}
    (h : checkTextSuccessor superseded successor = .ok u) :
    superseded.kind = .text ∧ superseded.channelId = successor.channelId := by
  simp only [checkTextSuccessor, bind_eq_ok, refuseIf_eq_ok, not_not] at h
  obtain ⟨_, hch, _, hkn, -⟩ := h
  exact ⟨hkn, hch⟩

variable {supersedes : Option String} {submission : SeatListSubmission} {now : Timestamp}
  {answer : Response}

theorem textCreateConflict_eq_none {db : ReferenceDb}
    (h : db.textCreateConflict group supersedes = .ok none) :
    (∀ open_, db.openTextGroup group.channelId = some open_ → supersedes = some open_.id) ∧
      ∀ id, supersedes = some id → ∃ old, db.mlsGroups.get id = some old ∧
        old.kind = .text ∧ old.channelId = group.channelId := by
  cases supersedes with
  | none =>
    simp only [ReferenceDb.textCreateConflict, bind_eq_ok, pure_eq_ok, Option.map_eq_none_iff] at h
    obtain ⟨_, -, hon⟩ := h
    refine ⟨fun open_ ho => ?_, nofun⟩
    rw [hon] at ho
    cases ho
  | some supersededId =>
    simp only [ReferenceDb.textCreateConflict, bind_eq_ok, okOr_eq_ok, pure_eq_ok,
      Option.map_eq_none_iff] at h
    obtain ⟨old, hold, _, hsc, hon⟩ := h
    refine ⟨fun open_ ho => ?_, fun id hid => ?_⟩
    · rw [Option.filter_eq_none_iff] at hon
      have hid := hon open_ ho
      rw [bne_iff_ne, not_not] at hid
      rw [hid]
    · rw [← some.inj hid]
      exact ⟨old, hold, checkTextSuccessor_eq_ok hsc⟩

theorem squatAt_eq_ok {prim : Primitives} {db : ReferenceDb} {squat : Bool}
    (h : db.squatAt prim prepared = .ok squat) :
    (squat = false ∧ db.mlsGroups.get prepared.id = none) ∨
      (squat = true ∧ ∃ taken, db.mlsGroups.get prepared.id = some taken ∧ taken.kind = .call) := by
  unfold ReferenceDb.squatAt at h
  cases hg : db.mlsGroups.get prepared.id with
  | none =>
    rw [hg, ok_eq_ok] at h
    exact .inl ⟨h.symm, rfl⟩
  | some taken =>
    rw [hg] at h
    dsimp only at h
    split at h
    · rename_i hca
      exact .inr ⟨(ok_eq_ok.mp h).symm, taken, rfl, hca.1⟩
    · cases h

/-- What a successful Call create has checked: the id was free, and the slot was free
or is freed by closing the open predecessor. -/
structure CallCreate (db : ReferenceDb) (group : MlsGroup) (closed : Option String) : Prop where
  kind_call : group.kind = .call
  id_free : db.mlsGroups.get group.id = none
  slot : (closed = none ∧
      db.mlsGroups.values.find? (isOpenGroupOf group.channelId group.kind) = none) ∨
    ∃ id old, closed = some id ∧ db.mlsGroups.get id = some old ∧
      old.channelId = group.channelId ∧ old.kind = group.kind ∧ old.open_ = true

theorem callSuperseded_eq_some {db : ReferenceDb} {id : String}
    (h : db.callSuperseded group supersedes = .ok (some id)) :
    db.mlsGroups.get group.id = none ∧ ∃ old, db.mlsGroups.get id = some old ∧
      old.channelId = group.channelId ∧ old.kind = group.kind ∧ old.open_ = true := by
  cases supersedes with
  | none => exact absurd h (by simp [ReferenceDb.callSuperseded])
  | some supersededId =>
    unfold ReferenceDb.callSuperseded at h
    dsimp only at h
    cases hold : db.mlsGroups.get supersededId with
    | none =>
      rw [hold] at h
      cases h
    | some old =>
      rw [hold] at h
      dsimp only at h
      split_ifs at h with hch hkn hon hfr
      · cases h
      · obtain rfl : supersededId = id := by simpa using h
        refine ⟨by simpa using hfr, old, hold, ?_, ?_, ?_⟩
        · exact not_not.mp hch
        · exact not_not.mp hkn
        · simpa using hon

/-! ## The steps -/

open ReferenceDb

/-- What a protect or a seat PUT hands to the planner. -/
def Op.seatListInput (db : ReferenceDb) : Op → Option SeatListWriteInput
  | .protectChannel channelId submission now =>
    some (db.seatListWriteInput .protect channelId submission true now)
  | .putSeatList channelId submission allowClaims now =>
    some (db.seatListWriteInput .put channelId submission allowClaims now)
  | _ => none

/-- The planner reads the stored list, the seats, the entitlement and the open Text
group of the channel the operation names. -/
structure ReadsChannel (db : ReferenceDb) (input : SeatListWriteInput) : Prop where
  stored_eq : input.stored = db.channelSeatLists.get input.channelId
  entitlement_eq : input.entitlement = db.fetchChannelEntitlement input.channelId
  seats_eq : input.seats = seatsOf db.channelSeats input.channelId
  textGroup_eq : input.textGroup = db.openTextGroup input.channelId

theorem readsChannel_of_seatListInput {db : ReferenceDb} {op : Op} {input : SeatListWriteInput}
    (h : op.seatListInput db = some input) : ReadsChannel db input := by
  cases op with
  | protectChannel channelId submission now | putSeatList channelId submission allowClaims now =>
    cases h
    exact ⟨rfl, rfl, rfl, rfl⟩
  | _ => exact absurd h (by simp [Op.seatListInput])

/-- The ways an operation changes the store. -/
inductive Step (prim : Primitives) (db : ReferenceDb) : Op → ReferenceDb → Prop where
  /-- Refused, answered from what is stored, or nothing to change. -/
  | same (op : Op) : Step prim db op db
  | environment (env : Environment) : Step prim db (.environment env) (db.withEnvironment env)
  | grant {entitlement stored : ChannelEntitlement} {now : Timestamp} :
      channelSeatsUsed (seatsOf db.channelSeats entitlement.channelId) now ≤ entitlement.slotCap →
      stored = storedEntitlement entitlement (db.fetchChannelEntitlement entitlement.channelId) →
      Step prim db (.upsertChannelEntitlement entitlement now)
        { db with channelEntitlements := db.channelEntitlements.insert stored.id stored }
  | listWrite {op : Op} {input : SeatListWriteInput} {plan : SeatListWritePlan}
      {channels : Table String Channel} :
      op.seatListInput db = some input → planSeatListWrite prim input = .ok (.apply plan) →
      Step prim db op
        { db.applyDecision ((db.openTextGroup input.channelId).map (·.id)) (.apply plan) with
          channels := channels }
  | createText {group prepared : MlsGroup} {supersedes : Option String} {list : SeatList}
      {squat : Bool} :
      TextCreate prim db group supersedes list prepared squat →
      Step prim db (.createTextMlsGroup group supersedes)
        ((if squat then db.evictSquat prepared.id else db).insertTextGroup group prepared
          supersedes)
  | release {userId : String} {serverId : Option String} {now cooldownUntil : Timestamp} :
      seatCooldownUntil now = .ok cooldownUntil →
      Step prim db (.releaseChannelSeatsForUser userId serverId now)
        { db with
          channelSeats := db.channelSeats.mapValues fun seat =>
            if db.releasesSeat userId serverId seat then releasedSeat now cooldownUntil seat
            else seat
          mlsGroups := db.mlsGroups.mapValues fun group =>
            if db.pendsRemoval userId serverId group then pushPending userId now group
            else group }
  | delete (channelId : String) : Step prim db (.deleteProtectedChannelData channelId)
        (db.deleteProtectedChannelData channelId)
  | createCall {group : MlsGroup} {supersedes closed : Option String} : CallCreate db group closed →
      Step prim db (.createMlsGroup group supersedes)
        { db with
          mlsGroups := (modifyGroup db.mlsGroups (supersede group) closed).insert group.id group }
  | close {groupId : String} {now : Timestamp} {group : MlsGroup} :
      db.mlsGroups.get groupId = some group → group.kind = .call →
      Step prim db (.closeMlsGroup groupId now)
        { db with
          mlsGroups := db.mlsGroups.insert groupId
            { group with open_ := false, closedAt := some now } }
  | callCommit {commit : MlsCommit} {group : MlsGroup} :
      db.mlsGroups.get commit.groupId = some group → group.kind = .call → group.open_ = true →
      commit.epoch = group.currentEpoch + 1 → checkCallAdds group commit.added = .ok () →
      checkCallCeiling group commit = .ok () →
      db.mlsCommits.get (MlsCommit.compositeId commit.groupId commit.epoch) = none →
      Step prim db (.insertMlsCommit commit)
        { db with
          mlsCommits := db.mlsCommits.insert
            (MlsCommit.compositeId commit.groupId commit.epoch) commit
          mlsGroups := db.mlsGroups.insert commit.groupId (applyCallCommit group commit)
          mlsJoinIntents := db.mlsJoinIntents.eraseAll (admittedIntentIds commit) }
  | textCommit {commit : MlsCommit} {adSha256 : String} {entitlementDeviceCap : Nat}
      {group : MlsGroup} {list : SeatList} {signed : SeatListBody} {plan : MlsTextCommitPlan} :
      db.mlsCommits.get (textCommitKey (MlsCommit.compositeId commit.groupId commit.epoch)) = none →
      db.mlsGroups.get commit.groupId = some group →
      db.channelSeatLists.get group.channelId = some list →
      TextCommitAccepted group commit adSha256 list signed
        (db.storedIntentsFor group commit.removed) (db.revokedIdentitiesFor commit.removed)
        (db.activeSeatUsersFor group.channelId commit.added) plan →
      Step prim db (.insertMlsTextCommit commit adSha256 entitlementDeviceCap)
        { db with
          mlsCommits := (db.mlsCommits.erase
            (MlsCommit.compositeId commit.groupId commit.epoch)).insert
            (textCommitKey (MlsCommit.compositeId commit.groupId commit.epoch)) plan.stored
          mlsGroups := db.mlsGroups.insert commit.groupId (applyTextCommit group commit plan)
          mlsJoinIntents := db.mlsJoinIntents.eraseAll plan.consumedIntentIds }
  | intent (intent : MlsJoinIntent) :
      Step prim db (.upsertMlsJoinIntent intent) (db.upsertMlsJoinIntent intent).1
  | sweep (closedThreshold createdThreshold : Timestamp) :
      Step prim db (.sweepMlsGroups closedThreshold createdThreshold)
        (db.sweepMlsGroups closedThreshold createdThreshold).1
  | prune (olderThan : Timestamp) :
      Step prim db (.pruneMlsTextCommits olderThan) (db.pruneMlsTextCommits olderThan).1

/-! ## Every operation is a step -/

variable {prim : Primitives} {db next : ReferenceDb}

section

variable {outcome : SeatListWriteOutcome}

theorem protectChannel_eq_ok
    (h : db.protectChannel prim channelId submission now = .ok (next, outcome)) :
    (next = db ∧ outcome.unchanged = true) ∨ ∃ plan channels,
      planSeatListWrite prim (db.seatListWriteInput .protect channelId submission true now) =
        .ok (.apply plan) ∧
      next = { db.applyDecision ((db.openTextGroup channelId).map (·.id)) (.apply plan) with
        channels := channels } ∧ outcome = plan.outcome := by
  unfold protectChannel at h
  dsimp only at h
  split at h
  · cases ok_eq_ok.mp h
    exact .inl ⟨rfl, rfl⟩
  · simp only [protectFirst, bind_eq_ok, pure_eq_ok] at h
    obtain ⟨_, -, _, -, _, -, _, -, _, -, _, -, _, -, decision, hpl, _, -, heq⟩ := h
    cases heq
    cases decision with
    | unchanged list =>
      exact absurd (planSeatListWrite_unchanged hpl).1 (by simp [seatListWriteInput])
    | apply plan => exact .inr ⟨plan, _, hpl, rfl, rfl⟩

theorem putSeatList_eq_ok
    (h : db.putSeatList prim channelId submission allowClaims now = .ok (next, outcome)) :
    (next = db ∧ outcome.unchanged = true) ∨ ∃ plan,
      planSeatListWrite prim (db.seatListWriteInput .put channelId submission allowClaims now) =
        .ok (.apply plan) ∧
      next = db.applyDecision ((db.openTextGroup channelId).map (·.id)) (.apply plan) ∧
      outcome = plan.outcome := by
  simp only [putSeatList, bind_eq_ok, pure_eq_ok] at h
  obtain ⟨decision, hpl, _, -, heq⟩ := h
  cases heq
  cases decision with
  | unchanged list => exact .inl ⟨rfl, rfl⟩
  | apply plan => exact .inr ⟨plan, hpl, rfl, rfl⟩

theorem step_protectChannel
    (h : db.protectChannel prim channelId submission now = .ok (next, outcome)) :
    Step prim db (.protectChannel channelId submission now) next := by
  rcases protectChannel_eq_ok h with ⟨rfl, -⟩ | ⟨plan, channels, hpl, rfl, -⟩
  · exact .same _
  · exact .listWrite rfl hpl

theorem step_putSeatList
    (h : db.putSeatList prim channelId submission allowClaims now = .ok (next, outcome)) :
    Step prim db (.putSeatList channelId submission allowClaims now) next := by
  rcases putSeatList_eq_ok h with ⟨rfl, -⟩ | ⟨plan, hpl, rfl, -⟩
  · exact .same _
  · exact .listWrite rfl hpl

end

theorem step_createTextMlsGroup {outcome : MlsGroupCreateOutcome}
    (h : db.createTextMlsGroup prim group supersedes = .ok (next, outcome)) :
    Step prim db (.createTextMlsGroup group supersedes) next := by
  unfold createTextMlsGroup at h
  rw [bind_eq_ok] at h
  obtain ⟨list, hls, h⟩ := h
  rw [bind_eq_ok] at h
  obtain ⟨conflict, hcon, h⟩ := h
  cases conflict with
  | some conflict =>
    cases pure_eq_ok.mp h
    exact .same _
  | none =>
    simp only [bind_eq_ok, pure_eq_ok] at h
    obtain ⟨prepared, hpr, squat, hsqu, heq⟩ := h
    cases heq
    obtain ⟨hol, hsup⟩ := textCreateConflict_eq_none hcon
    exact .createText {
      list_get := okOr_eq_ok.mp hls
      is_prepared := prepared_of_prepareTextGroup hpr
      only_open := hol
      superseded := hsup
      id_free := squatAt_eq_ok hsqu }

theorem step_createMlsGroup {outcome : MlsGroupCreateOutcome}
    (h : db.createMlsGroup group supersedes = .ok (next, outcome)) :
    Step prim db (.createMlsGroup group supersedes) next := by
  unfold createMlsGroup at h
  simp only [bind_eq_ok, refuseIf_eq_ok, not_not] at h
  obtain ⟨_, hkn, closed, hcl, h⟩ := h
  cases closed with
  | some supersededId =>
    cases pure_eq_ok.mp h
    obtain ⟨hfr, old, hold, hrs⟩ := callSuperseded_eq_some hcl
    have hcr : CallCreate db group (some supersededId) :=
      ⟨hkn, hfr, .inr ⟨supersededId, old, rfl, hold, hrs⟩⟩
    exact .createCall hcr
  | none =>
    dsimp only at h
    unfold createFreshCall at h
    split at h
    · cases ok_eq_ok.mp h
      exact .same _
    · rename_i hno
      simp only [bind_eq_ok, refuseIf_eq_ok, pure_eq_ok] at h
      obtain ⟨_, hfr, heq⟩ := h
      cases heq
      have hcr : CallCreate db group none := ⟨hkn, by simpa using hfr, .inl ⟨rfl, hno⟩⟩
      exact .createCall hcr

theorem step_closeMlsGroup {groupId : String} {changed : Bool}
    (h : db.closeMlsGroup groupId now = .ok (next, changed)) :
    Step prim db (.closeMlsGroup groupId now) next := by
  simp only [closeMlsGroup, bind_eq_ok, okOr_eq_ok, refuseIf_eq_ok, not_not] at h
  obtain ⟨group, hg, _, hkn, h⟩ := h
  split at h
  · cases pure_eq_ok.mp h
    exact .same _
  · cases pure_eq_ok.mp h
    exact .close hg hkn

section

variable {commit : MlsCommit} {outcome : MlsCommitOutcome}
  (h : db.insertMlsCommit commit = .ok (next, outcome))
include h

theorem insertMlsCommit_eq_ok : (next = db ∧ outcome ≠ .won) ∨
      (outcome = .won ∧ ∃ group, db.mlsGroups.get commit.groupId = some group ∧
        group.kind = .call ∧ group.open_ = true ∧ commit.epoch = group.currentEpoch + 1 ∧
        checkCallAdds group commit.added = .ok () ∧ checkCallCeiling group commit = .ok () ∧
        db.mlsCommits.get (MlsCommit.compositeId commit.groupId commit.epoch) = none ∧
        next = { db with
          mlsCommits := db.mlsCommits.insert
            (MlsCommit.compositeId commit.groupId commit.epoch) commit
          mlsGroups := db.mlsGroups.insert commit.groupId (applyCallCommit group commit)
          mlsJoinIntents := db.mlsJoinIntents.eraseAll (admittedIntentIds commit) }) := by
  simp only [insertMlsCommit, bind_eq_ok, okOr_eq_ok, refuseIf_eq_ok, not_not] at h
  obtain ⟨group, hg, _, hkn, _, hon, _, -, h⟩ := h
  split at h
  · simp only [bind_eq_ok, pure_eq_ok] at h
    obtain ⟨winning, -, heq⟩ := h
    cases heq
    exact .inl ⟨rfl, by simp⟩
  · simp only [insertNextCommit, bind_eq_ok, refuseIf_eq_ok, not_not] at h
    obtain ⟨_, hep, _, had, _, hceil, h⟩ := h
    split at h
    · cases pure_eq_ok.mp h
      exact .inl ⟨rfl, by simp⟩
    · rename_i hfr
      cases pure_eq_ok.mp h
      exact .inr ⟨rfl, group, hg, hkn, by simpa using hon, hep, had, hceil, hfr, rfl⟩

theorem step_insertMlsCommit : Step prim db (.insertMlsCommit commit) next := by
  rcases insertMlsCommit_eq_ok h with ⟨rfl, -⟩ | ⟨-, group, hg, hkn, hon, hep, had, hceil, hfr, rfl⟩
  · exact .same _
  · exact .callCommit hg hkn hon hep had hceil hfr

end

/-- What an accepted text commit has found, and what it leaves. -/
abbrev ReferenceDb.TextCommitted (db : ReferenceDb) (commit : MlsCommit) (adSha256 : String)
    (next : ReferenceDb) : Prop :=
  ∃ group list signed plan,
    db.mlsCommits.get (textCommitKey (MlsCommit.compositeId commit.groupId commit.epoch)) = none ∧
    db.mlsGroups.get commit.groupId = some group ∧
    db.channelSeatLists.get group.channelId = some list ∧
    TextCommitAccepted group commit adSha256 list signed
      (db.storedIntentsFor group commit.removed) (db.revokedIdentitiesFor commit.removed)
      (db.activeSeatUsersFor group.channelId commit.added) plan ∧
    next = { db with
      mlsCommits := (db.mlsCommits.erase
        (MlsCommit.compositeId commit.groupId commit.epoch)).insert
        (textCommitKey (MlsCommit.compositeId commit.groupId commit.epoch)) plan.stored
      mlsGroups := db.mlsGroups.insert commit.groupId (applyTextCommit group commit plan)
      mlsJoinIntents := db.mlsJoinIntents.eraseAll plan.consumedIntentIds }

section

variable {commit : MlsCommit} {adSha256 : String} {entitlementDeviceCap : Nat}
  {outcome : MlsCommitOutcome}
  (h : db.insertMlsTextCommit commit adSha256 entitlementDeviceCap = .ok (next, outcome))
include h

/-- What a call of `insertMlsTextCommit` that answers has done: it lost to the
Text-marked row stored for the epoch and changed nothing, or it was accepted. -/
theorem insertMlsTextCommit_eq_ok : (next = db ∧ ∃ winning, outcome = .lost winning ∧
      db.mlsCommits.get (textCommitKey (MlsCommit.compositeId commit.groupId commit.epoch)) =
        some winning) ∨
      (outcome = .won ∧ db.TextCommitted commit adSha256 next) := by
  unfold insertMlsTextCommit at h
  dsimp only at h
  split at h
  · rename_i winning hwin
    cases ok_eq_ok.mp h
    exact .inl ⟨rfl, winning, rfl, hwin⟩
  · rename_i hno
    simp only [bind_eq_ok, okOr_eq_ok, pure_eq_ok] at h
    obtain ⟨group, hg, plan, hpl, heq⟩ := h
    cases heq
    obtain ⟨list, signed, hls, hacc⟩ := planMlsTextCommit_spec hpl
    exact .inr ⟨rfl, group, list, signed, plan, hno, hg, hls, hacc, rfl⟩

theorem step_insertMlsTextCommit :
    Step prim db (.insertMlsTextCommit commit adSha256 entitlementDeviceCap) next := by
  rcases insertMlsTextCommit_eq_ok h with ⟨rfl, -⟩ | ⟨-, group, list, signed, plan, hno, hg,
    hls, hacc, rfl⟩
  · exact .same _
  · exact .textCommit hno hg hls hacc

end

theorem step_upsertChannelEntitlement {entitlement stored : ChannelEntitlement}
    (h : db.upsertChannelEntitlement entitlement now = .ok (next, stored)) :
    Step prim db (.upsertChannelEntitlement entitlement now) next := by
  simp only [upsertChannelEntitlement, bind_eq_ok, refuseIf_eq_ok, pure_eq_ok] at h
  obtain ⟨_, -, _, hus, heq⟩ := h
  cases heq
  exact .grant (not_lt.mp hus) rfl

theorem step_releaseChannelSeatsForUser {userId : String} {serverId : Option String}
    {affected : List String}
    (h : db.releaseChannelSeatsForUser userId serverId now = .ok (next, affected)) :
    Step prim db (.releaseChannelSeatsForUser userId serverId now) next := by
  simp only [releaseChannelSeatsForUser, bind_eq_ok, pure_eq_ok] at h
  obtain ⟨cooldownUntil, hco, heq⟩ := h
  cases heq
  exact .release hco

theorem map_answer_eq_ok {α : Type} {wrap : α → Response} {r : Result (ReferenceDb × α)}
    (h : (Prod.map id wrap <$> r) = .ok (next, answer)) :
    ∃ a, r = .ok (next, a) ∧ answer = wrap a := by
  rw [map_eq_ok] at h
  obtain ⟨⟨db', a⟩, hr, heq⟩ := h
  cases heq
  exact ⟨a, hr, rfl⟩

variable {op : Op}

theorem step_perform (h : perform prim db op = .ok (next, answer)) : Step prim db op next := by
  cases op with
  | upsertChannelEntitlement entitlement now =>
    obtain ⟨a, hr, -⟩ := map_answer_eq_ok h
    exact step_upsertChannelEntitlement hr
  | protectChannel channelId submission now =>
    obtain ⟨a, hr, -⟩ := map_answer_eq_ok h
    exact step_protectChannel hr
  | putSeatList channelId submission allowClaims now =>
    obtain ⟨a, hr, -⟩ := map_answer_eq_ok h
    exact step_putSeatList hr
  | createTextMlsGroup group supersedes =>
    obtain ⟨a, hr, -⟩ := map_answer_eq_ok h
    exact step_createTextMlsGroup hr
  | releaseChannelSeatsForUser userId serverId now =>
    obtain ⟨a, hr, -⟩ := map_answer_eq_ok h
    exact step_releaseChannelSeatsForUser hr
  | deleteProtectedChannelData channelId =>
    cases ok_eq_ok.mp h
    exact .delete channelId
  | createMlsGroup group supersedes =>
    obtain ⟨a, hr, -⟩ := map_answer_eq_ok h
    exact step_createMlsGroup hr
  | closeMlsGroup groupId now =>
    obtain ⟨a, hr, -⟩ := map_answer_eq_ok h
    exact step_closeMlsGroup hr
  | insertMlsCommit commit =>
    obtain ⟨a, hr, -⟩ := map_answer_eq_ok h
    exact step_insertMlsCommit hr
  | insertMlsTextCommit commit adSha256 entitlementDeviceCap =>
    obtain ⟨a, hr, -⟩ := map_answer_eq_ok h
    exact step_insertMlsTextCommit hr
  | upsertMlsJoinIntent intent =>
    cases ok_eq_ok.mp h
    exact .intent intent
  | sweepMlsGroups closedThreshold createdThreshold =>
    cases ok_eq_ok.mp h
    exact .sweep closedThreshold createdThreshold
  | pruneMlsTextCommits olderThan =>
    cases ok_eq_ok.mp h
    exact .prune olderThan
  | environment env =>
    cases ok_eq_ok.mp h
    exact .environment env

theorem perform_of_exec_eq_ok (h : (exec prim db op).2 = .ok answer) :
    perform prim db op = .ok ((exec prim db op).1, answer) := by
  unfold exec at h ⊢
  cases hp : perform prim db op with
  | error e =>
    rw [hp] at h
    cases h
  | ok result =>
    obtain ⟨next, answer'⟩ := result
    rw [hp] at h
    rw [ok_eq_ok.mp h]

theorem exec_of_error {error : Error} (h : (exec prim db op).2 = .error error) :
    (exec prim db op).1 = db := by
  unfold exec at h ⊢
  cases hp : perform prim db op with
  | error e => rfl
  | ok result =>
    rw [hp] at h
    cases h

theorem exec_seatList {input : SeatListWriteInput} (hop : op.seatListInput db = some input) :
    ((exec prim db op).1 = db ∧ ∀ outcome, (exec prim db op).2 = .ok (.seatList outcome) →
      outcome.unchanged = true) ∨
    ∃ plan channels, planSeatListWrite prim input = .ok (.apply plan) ∧ (exec prim db op).1 =
        { db.applyDecision ((db.openTextGroup input.channelId).map (·.id)) (.apply plan) with
          channels := channels } ∧
      (exec prim db op).2 = .ok (.seatList plan.outcome) := by
  cases hans : (exec prim db op).2 with
  | error e => exact .inl ⟨exec_of_error hans, nofun⟩
  | ok answer =>
    have hperf := perform_of_exec_eq_ok hans
    cases op with
    | protectChannel channelId submission now =>
      cases hop
      obtain ⟨outcome, hr, rfl⟩ := map_answer_eq_ok hperf
      rcases protectChannel_eq_ok hr with ⟨heq, hun⟩ | ⟨plan, channels, hpl, heq, rfl⟩
      · refine .inl ⟨heq, fun outcome' h => ?_⟩
        rw [← Response.seatList.inj (ok_eq_ok.mp h)]
        exact hun
      · exact .inr ⟨plan, channels, hpl, heq, rfl⟩
    | putSeatList channelId submission allowClaims now =>
      cases hop
      obtain ⟨outcome, hr, rfl⟩ := map_answer_eq_ok hperf
      rcases putSeatList_eq_ok hr with ⟨heq, hun⟩ | ⟨plan, hpl, heq, rfl⟩
      · refine .inl ⟨heq, fun outcome' h => ?_⟩
        rw [← Response.seatList.inj (ok_eq_ok.mp h)]
        exact hun
      · exact .inr ⟨plan, db.channels, hpl, heq, rfl⟩
    | _ => exact absurd hop (by simp [Op.seatListInput])

/-- **Every step of the driver is one of the listed changes.** -/
theorem step_exec (prim : Primitives) (db : ReferenceDb) (op : Op) :
    Step prim db op (exec prim db op).1 := by
  unfold exec
  split
  · rename_i h
    exact step_perform h
  · exact .same op

end SlogaBackend.Mls
