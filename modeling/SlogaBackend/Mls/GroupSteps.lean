import SlogaBackend.Mls.Steps

/-!
# A step seen from one group

`GroupStep` is the view of a step from one key of the group table: the row stays, is
created, is removed, or is rewritten in one of seven ways. The proofs about rosters,
epochs and open slots go by this view. It needs only that group rows sit under
their own ids, which every step keeps (`groupsKeyed_step`).
-/

namespace SlogaBackend.Mls

open Checks ReferenceDb

/-! ## Keys -/

/-- Group rows sit under their own ids. -/
def GroupsKeyed (db : ReferenceDb) : Prop :=
  ∀ k group, db.mlsGroups.get k = some group → group.id = k

variable {prim : Primitives} {db next : ReferenceDb} {op : Op}

theorem GroupsKeyed.get_of_mem (hk : GroupsKeyed db) {group : MlsGroup}
    (h : group ∈ db.mlsGroups.values) : db.mlsGroups.get group.id = some group := by
  obtain ⟨k, hg⟩ := mem_values.mp h
  rw [hk k group hg]
  exact hg

theorem isOpenTextGroupOf_iff {channelId : String} {group : MlsGroup} :
    isOpenTextGroupOf channelId group = true ↔
      group.channelId = channelId ∧ group.open_ = true ∧ group.kind = .text := by
  simp [isOpenTextGroupOf, and_assoc]

theorem openTextGroup_eq_some (hk : GroupsKeyed db) {channelId : String} {group : MlsGroup}
    (h : db.openTextGroup channelId = some group) :
    db.mlsGroups.get group.id = some group ∧ group.channelId = channelId ∧
      group.open_ = true ∧ group.kind = .text :=
  ⟨hk.get_of_mem (mem_of_find?_eq_some h), isOpenTextGroupOf_iff.mp (List.find?_some h)⟩

theorem mem_textGroupIds (hk : GroupsKeyed db) {channelId k : String} :
    k ∈ db.textGroupIds channelId ↔ ∃ group, db.mlsGroups.get k = some group ∧
      group.channelId = channelId ∧ group.kind = .text := by
  unfold textGroupIds
  rw [mem_map]
  constructor
  · rintro ⟨group, hmem, rfl⟩
    rw [mem_filter, and_eq_true, beq_iff_eq, beq_iff_eq] at hmem
    exact ⟨group, hk.get_of_mem hmem.1, hmem.2⟩
  · rintro ⟨group, hg, hch, hkn⟩
    refine ⟨group, mem_filter.mpr ⟨mem_values_of_get hg, ?_⟩, hk k group hg⟩
    rw [and_eq_true, beq_iff_eq, beq_iff_eq]
    exact ⟨hch, hkn⟩

theorem mem_sweptIds (hk : GroupsKeyed db) {closedThreshold createdThreshold : Timestamp}
    {k : String} (h : k ∈ db.sweptIds closedThreshold createdThreshold) :
    ∃ group, db.mlsGroups.get k = some group ∧ group.kind = .call := by
  obtain ⟨group, hmem, rfl⟩ := mem_map.mp h
  rw [mem_filter] at hmem
  refine ⟨group, hk.get_of_mem hmem.1, ?_⟩
  have hswep := hmem.2
  rw [isSwept, and_eq_true, beq_iff_eq] at hswep
  exact hswep.1

/-! ## A step seen from one group -/

/-- What a step can do to the row at one key of the group table. -/
inductive GroupStep (prim : Primitives) (db : ReferenceDb) : Op → String → Option MlsGroup → Prop
    where
  | same (op : Op) (k : String) : GroupStep prim db op k (db.mlsGroups.get k)
  | bound {op : Op} {input : SeatListWriteInput} {plan : SeatListWritePlan} {group : MlsGroup} :
      op.seatListInput db = some input → planSeatListWrite prim input = .ok (.apply plan) →
      db.openTextGroup input.channelId = some group →
      db.mlsGroups.get group.id = some group →
      GroupStep prim db op group.id (some (bindList plan group))
  | superseded {op : Op} {k : String} {successor group : MlsGroup} :
      db.mlsGroups.get k = some group → group.open_ = true →
      GroupStep prim db op k (some (supersede successor group))
  | createdText {group prepared : MlsGroup} {supersedes : Option String} {list : SeatList}
      {squat : Bool} :
      TextCreate prim db group supersedes list prepared squat →
      GroupStep prim db (.createTextMlsGroup group supersedes) prepared.id (some prepared)
  | createdCall {group : MlsGroup} {supersedes closed : Option String} :
      CallCreate db group closed →
      GroupStep prim db (.createMlsGroup group supersedes) group.id (some group)
  | pended {userId k : String} {serverId : Option String} {now : Timestamp} {group : MlsGroup} :
      db.mlsGroups.get k = some group → db.pendsRemoval userId serverId group = true →
      GroupStep prim db (.releaseChannelSeatsForUser userId serverId now) k
        (some (pushPending userId now group))
  | deleted {k : String} {group : MlsGroup} : db.mlsGroups.get k = some group → group.kind = .text →
      GroupStep prim db (.deleteProtectedChannelData group.channelId) k none
  | closed {k : String} {now : Timestamp} {group : MlsGroup} :
      db.mlsGroups.get k = some group → group.kind = .call →
      GroupStep prim db (.closeMlsGroup k now) k
        (some { group with open_ := false, closedAt := some now })
  | callCommitted {commit : MlsCommit} {group : MlsGroup} :
      db.mlsGroups.get commit.groupId = some group → group.kind = .call →
      commit.epoch = group.currentEpoch + 1 → checkCallAdds group commit.added = .ok () →
      GroupStep prim db (.insertMlsCommit commit) commit.groupId
        (some (applyCallCommit group commit))
  | textCommitted {commit : MlsCommit} {adSha256 : String} {entitlementDeviceCap : Nat}
      {group : MlsGroup} {list : SeatList} {signed : SeatListBody} {plan : MlsTextCommitPlan} :
      db.mlsGroups.get commit.groupId = some group →
      db.channelSeatLists.get group.channelId = some list →
      TextCommitAccepted group commit adSha256 list signed
        (db.storedIntentsFor group commit.removed) (db.revokedIdentitiesFor commit.removed)
        (db.activeSeatUsersFor group.channelId commit.added) plan →
      GroupStep prim db (.insertMlsTextCommit commit adSha256 entitlementDeviceCap) commit.groupId
        (some (applyTextCommit group commit plan))
  | swept {closedThreshold createdThreshold : Timestamp} {k : String} {group : MlsGroup} :
      db.mlsGroups.get k = some group → group.kind = .call →
      GroupStep prim db (.sweepMlsGroups closedThreshold createdThreshold) k none

theorem groupStep_of_eq {k : String} {row : Option MlsGroup} (h : row = db.mlsGroups.get k) :
    GroupStep prim db op k row := by
  rw [h]
  exact .same op k

theorem groupStep_listWrite (hk : GroupsKeyed db) {input : SeatListWriteInput}
    {plan : SeatListWritePlan} (hop : op.seatListInput db = some input)
    (hpl : planSeatListWrite prim input = .ok (.apply plan)) (k : String) :
    GroupStep prim db op k ((modifyGroup db.mlsGroups (bindList plan)
      ((db.openTextGroup input.channelId).map (·.id))).get k) := by
  cases hon : db.openTextGroup input.channelId with
  | none => exact .same op k
  | some group =>
    have hg := (openTextGroup_eq_some hk hon).1
    rw [map_some, modifyGroup, get_modify]
    by_cases hkid : k = group.id
    · rw [if_pos hkid, hkid, hg, map_some]
      exact .bound hop hpl hon hg
    · rw [if_neg hkid]
      exact .same op k

variable {supersedes : Option String}

theorem get_closeSuperseded {groups : Table String MlsGroup} {successor : MlsGroup} {k : String} :
    ((modifyGroup groups (fun superseded =>
        if superseded.open_ then supersede successor superseded else superseded)
      supersedes).get k = groups.get k ∧
        (supersedes = some k → ∀ group, groups.get k = some group → group.open_ = false)) ∨
      ∃ group, groups.get k = some group ∧ group.open_ = true ∧
        (modifyGroup groups (fun superseded =>
          if superseded.open_ then supersede successor superseded else superseded)
        supersedes).get k = some (supersede successor group) := by
  cases supersedes with
  | none => exact .inl ⟨rfl, nofun⟩
  | some id =>
    rw [modifyGroup, get_modify]
    by_cases hkid : k = id
    · rw [if_pos hkid]
      cases hg : groups.get k with
      | none => exact .inl ⟨rfl, nofun⟩
      | some group =>
        rw [map_some]
        by_cases hon : group.open_ = true
        · rw [if_pos hon]
          exact .inr ⟨group, rfl, hon, rfl⟩
        · rw [if_neg hon]
          refine .inl ⟨rfl, fun _ group' h => ?_⟩
          rw [← some.inj h]
          simpa using hon
    · rw [if_neg hkid]
      refine .inl ⟨rfl, fun h => absurd ?_ hkid⟩
      exact (some.inj h).symm

theorem get_evictSquat_of_ne {id k : String} (hk : k ≠ id) (squat : Bool) :
    (if squat then db.evictSquat id else db).mlsGroups.get k = db.mlsGroups.get k := by
  cases squat with
  | false => rfl
  | true =>
    have hera : (db.mlsGroups.erase id).get k = db.mlsGroups.get k := by
      rw [get_erase, if_neg hk]
    exact hera

theorem groupStep_createText {group prepared : MlsGroup} {list : SeatList} {squat : Bool}
    (hc : TextCreate prim db group supersedes list prepared squat) (k : String) :
    GroupStep prim db (.createTextMlsGroup group supersedes) k
      (((if squat then db.evictSquat prepared.id else db).insertTextGroup group prepared
        supersedes).mlsGroups.get k) := by
  unfold insertTextGroup
  rw [get_insert]
  by_cases hkid : k = prepared.id
  · rw [if_pos hkid, hkid]
    exact .createdText hc
  · rw [if_neg hkid]
    have hclear : (if squat then db.evictSquat prepared.id else db).mlsGroups.get k =
        db.mlsGroups.get k := get_evictSquat_of_ne hkid squat
    rcases get_closeSuperseded with ⟨heq, -⟩ | ⟨old, hold, hon, heq⟩
    · rw [heq, hclear]
      exact .same _ k
    · rw [heq]
      exact .superseded (hclear.symm.trans hold) hon

theorem groupStep_createCall {group : MlsGroup} {closed : Option String}
    (hc : CallCreate db group closed) (k : String) :
    GroupStep prim db (.createMlsGroup group supersedes) k
      (((modifyGroup db.mlsGroups (supersede group) closed).insert group.id group).get k) := by
  rw [get_insert]
  by_cases hkid : k = group.id
  · rw [if_pos hkid, hkid]
    exact .createdCall hc
  · rw [if_neg hkid]
    rcases hc.slot with ⟨rfl, -⟩ | ⟨id, old, rfl, hold, -, -, hon⟩
    · exact .same _ k
    · rw [modifyGroup, get_modify]
      by_cases hk' : k = id
      · rw [if_pos hk', hk', hold, map_some]
        exact .superseded hold hon
      · rw [if_neg hk']
        exact .same _ k

/-- **Every step acts on each group row in one of the listed ways.** -/
theorem Step.group (h : Step prim db op next) (hk : GroupsKeyed db) (k : String) :
    GroupStep prim db op k (next.mlsGroups.get k) := by
  cases h with
  | same => exact .same _ k
  | environment env => exact .same _ k
  | grant _ _ => exact .same _ k
  | listWrite hop hpl => exact groupStep_listWrite hk hop hpl k
  | createText hc => exact groupStep_createText hc k
  | @release userId serverId now cooldownUntil hcl =>
    rw [get_mapValues]
    cases hg : db.mlsGroups.get k with
    | none => exact groupStep_of_eq hg.symm
    | some group =>
      rw [map_some]
      by_cases hpen : db.pendsRemoval userId serverId group = true
      · rw [if_pos hpen]
        exact .pended hg hpen
      · rw [if_neg hpen]
        exact groupStep_of_eq hg.symm
  | delete channelId =>
    cases hg : db.mlsGroups.get k with
    | none =>
      refine groupStep_of_eq ?_
      unfold deleteProtectedChannelData
      rw [get_retain, hg]
      rfl
    | some group =>
      unfold deleteProtectedChannelData
      rw [get_retain, hg]
      by_cases hmem : k ∈ db.textGroupIds channelId
      · obtain ⟨group', hg', hch, hkn⟩ := (mem_textGroupIds hk).mp hmem
        have hno : (some group).filter
            (fun _ => !(db.textGroupIds channelId).contains k) = none := by
          simp [hmem]
        rw [hno, ← hch]
        exact .deleted hg' hkn
      · have hsm : (some group).filter
            (fun _ => !(db.textGroupIds channelId).contains k) = some group := by
          simp [hmem]
        rw [hsm]
        exact groupStep_of_eq hg.symm
  | createCall hc => exact groupStep_createCall hc k
  | @close groupId now group hg hkn =>
    rw [get_insert]
    by_cases hkid : k = groupId
    · rw [if_pos hkid, hkid]
      exact .closed hg hkn
    · rw [if_neg hkid]
      exact .same _ k
  | @callCommit commit group hg hkn hon hep had hceil hfr =>
    rw [get_insert]
    by_cases hkid : k = commit.groupId
    · rw [if_pos hkid, hkid]
      exact .callCommitted hg hkn hep had
    · rw [if_neg hkid]
      exact .same _ k
  | @textCommit commit adSha256 cap group list signed plan hrow hg hls hacc =>
    rw [get_insert]
    by_cases hkid : k = commit.groupId
    · rw [if_pos hkid, hkid]
      exact .textCommitted hg hls hacc
    · rw [if_neg hkid]
      exact .same _ k
  | intent intent => exact .same _ k
  | sweep closedThreshold createdThreshold =>
    unfold sweepMlsGroups
    rw [get_eraseAll]
    by_cases hmem : k ∈ db.sweptIds closedThreshold createdThreshold
    · rw [if_pos hmem]
      obtain ⟨group, hg, hkn⟩ := mem_sweptIds hk hmem
      exact .swept hg hkn
    · rw [if_neg hmem]
      exact .same _ k
  | prune olderThan => exact .same _ k

theorem groupsKeyed_step (h : Step prim db op next) (hk : GroupsKeyed db) : GroupsKeyed next := by
  intro k group' hg
  have hst := h.group hk k
  rw [hg] at hst
  generalize hrow : some group' = row at hst
  cases hst with
  | same => exact hk k group' hrow.symm
  | bound _ _ _ _ => rw [some.inj hrow]; rfl
  | superseded hold _ | pended hold _ | closed hold _ =>
    rw [some.inj hrow]; exact (hk k _ hold :)
  | deleted _ _ | swept _ _ => cases hrow
  | callCommitted hold _ _ _ | textCommitted hold _ _ =>
    rw [some.inj hrow]; exact (hk _ _ hold :)
  | _ => rw [some.inj hrow]

end SlogaBackend.Mls
