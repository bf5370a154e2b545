import SlogaBackend.Mls.Seating

/-!
# The roster of a Text group

Three lists of one record have to stay in step: the member devices, the record of
when each was added, and the pending removals. The rejoin rule reads the second, the
Add freeze the third, and four operations edit them with different filters.

`RosterWf` is what they keep. A pending entry always has a device in the roster, so
it can be cleared: a commit that leaves its user without a device drops it
(`text_roster_wf`, second part).
-/

namespace SlogaBackend.Mls

open Checks ReferenceDb

variable {prim : Primitives} {db next : ReferenceDb} {op : Op}

/-- The three lists of a Text group are in step. -/
structure RosterWf (group : MlsGroup) : Prop where
  members_nodup : group.members.Nodup
  members_le : group.members.length ≤ maxMlsTextGroupMembers
  added_nodup : (group.memberAdded.map (·.device)).Nodup
  added_iff : ∀ device, device ∈ group.memberAdded.map (·.device) ↔ device ∈ group.members
  pending_nodup : (group.pendingRemovals.map (·.userId)).Nodup
  pending_member : ∀ pending ∈ group.pendingRemovals,
    ∃ member ∈ group.members, member.userId = pending.userId

/-! ## The operations that edit a roster -/

variable {group : MlsGroup}

theorem rosterWf_bindList {input : SeatListWriteInput} {plan : SeatListWritePlan}
    {body : SeatListBody} (hw : RosterWf group)
    (happ : AppliedPlan prim input db.channelSeats body plan) (hgr : input.textGroup = some group)
    : RosterWf (bindList plan group) where
  members_nodup := hw.members_nodup
  members_le := hw.members_le
  added_nodup := hw.added_nodup
  added_iff := hw.added_iff
  pending_nodup := by
    have hadd := happ.pending_nodup
    have hdis : ∀ u ∈ group.pendingRemovals.map (·.userId),
        ∀ v ∈ plan.pendingAdded.map (·.userId), u ≠ v := by
      rintro u hu v hv rfl
      obtain ⟨-, -, -, hno⟩ := (happ.pending_iff group hgr u).mp (mem_map.mp hv)
      have hsm := MlsGroup.hasPendingRemoval_iff.mpr (mem_map.mp hu)
      rw [hno] at hsm
      cases hsm
    unfold bindList
    rw [map_append, nodup_append]
    exact ⟨hw.pending_nodup, hadd, hdis⟩
  pending_member := by
    intro pending hp
    rcases mem_append.mp hp with hold | hadd
    · exact hw.pending_member pending hold
    · obtain ⟨-, -, hmb, -⟩ := (happ.pending_iff group hgr pending.userId).mp ⟨pending, hadd, rfl⟩
      exact hmb

theorem rosterWf_pushPending {userId : String} {serverId : Option String} {now : Timestamp}
    (hw : RosterWf group) (hp : db.pendsRemoval userId serverId group = true) :
    RosterWf (pushPending userId now group) := by
  simp only [pendsRemoval, and_eq_true, not_eq_true', any_eq_true, beq_iff_eq] at hp
  obtain ⟨⟨-, member, hmb, huse⟩, hno⟩ := hp
  exact {
    members_nodup := hw.members_nodup
    members_le := hw.members_le
    added_nodup := hw.added_nodup
    added_iff := hw.added_iff
    pending_nodup := by
      unfold pushPending
      rw [map_append, nodup_append]
      refine ⟨hw.pending_nodup, by simp, fun u hu v hv huv => ?_⟩
      rw [List.map_singleton, mem_singleton] at hv
      have hsm := MlsGroup.hasPendingRemoval_iff.mpr (mem_map.mp hu)
      rw [huv, hv, hno] at hsm
      cases hsm
    pending_member := by
      intro pending hpend
      rcases mem_append.mp hpend with hold | hnew
      · exact hw.pending_member pending hold
      · rw [mem_singleton.mp hnew]
        exact ⟨member, hmb, huse⟩ }

variable {list : SeatList}

theorem rosterWf_prepared {prepared : MlsGroup} (hp : Prepared prim group list prepared)
    : RosterWf prepared := by
  have hdev : prepared.memberAdded.map (·.device) = prepared.members := by
    rw [hp.added_eq, hp.members_eq, hp.creator_eq]
    rfl
  exact {
    members_nodup := by
      rw [hp.members_eq]
      exact nodup_singleton _
    members_le := by
      rw [hp.members_eq, length_singleton]
      decide
    added_nodup := by
      rw [hdev, hp.members_eq]
      exact nodup_singleton _
    added_iff := by
      intro device
      rw [hdev]
    pending_nodup := by
      rw [hp.pending_eq]
      exact List.nodup_nil
    pending_member := by
      intro pending hpend
      rw [hp.pending_eq] at hpend
      exact absurd hpend (by simp) }

theorem map_device_memberAddedAfter (group : MlsGroup) (commit : MlsCommit) :
    (memberAddedAfter group commit).map (·.device) =
      applyDelta (group.memberAdded.map (·.device)) commit.added commit.removed := by
  unfold memberAddedAfter applyDelta
  rw [map_append, map_map, List.filter_map]
  congr 1
  · congr 1
    refine List.filter_congr fun entry _ => ?_
    rw [Function.comp_apply, Bool.not_inj_iff, Bool.eq_iff_iff, any_eq_true,
      contains_iff_mem]
    constructor
    · rintro ⟨device, hmem, heq⟩
      rw [and_eq_true, beq_iff_eq, beq_iff_eq] at heq
      have hdevi : entry.device = device := by
        unfold MlsMemberAdded.device
        rw [← heq.1, ← heq.2]
      rw [hdevi]
      exact hmem
    · intro hmem
      exact ⟨entry.device, hmem, by simp [MlsMemberAdded.device]⟩
  · exact List.map_id _

theorem nodup_applyDelta {members added removed : List MlsMemberDevice} (hm : members.Nodup)
    (ha : added.Nodup) (hnew : ∀ d ∈ added, d ∉ members) :
    (applyDelta members added removed).Nodup := by
  unfold applyDelta
  rw [nodup_append]
  refine ⟨hm.filter _, ha, fun d hd e he heq => ?_⟩
  exact hnew e he (heq ▸ (mem_filter.mp hd).1)

theorem rosterWf_applyTextCommit {commit : MlsCommit} {adSha256 : String} {signed : SeatListBody}
    {intents : List MlsJoinIntent} {revoked active : List String} {plan : MlsTextCommitPlan}
    (hw : RosterWf group)
    (hacc : TextCommitAccepted group commit adSha256 list signed intents revoked active plan) :
    RosterWf (applyTextCommit group commit plan) := by
  have hnod : commit.added.Nodup := (nodup_append.mp hacc.nodup).1
  have hnew : ∀ d ∈ commit.added, d ∉ group.members := fun d hd => (hacc.adds d hd).1
  have hmbs : (applyTextCommit group commit plan).members =
      applyDelta group.members commit.added commit.removed := hacc.members_eq
  have hdev : (applyTextCommit group commit plan).memberAdded.map (·.device) =
      applyDelta (group.memberAdded.map (·.device)) commit.added commit.removed := by
    have heq : (applyTextCommit group commit plan).memberAdded = memberAddedAfter group commit :=
      hacc.memberAdded_eq
    rw [heq, map_device_memberAddedAfter]
  exact {
    members_nodup := by
      rw [hmbs]
      exact nodup_applyDelta hw.members_nodup hnod hnew
    members_le := hacc.members_le
    added_nodup := by
      rw [hdev]
      exact nodup_applyDelta hw.added_nodup hnod fun d hd hmem =>
        hnew d hd ((hw.added_iff d).mp hmem)
    added_iff := by
      intro device
      rw [hdev, hmbs, mem_applyDelta, mem_applyDelta, hw.added_iff device]
    pending_nodup := hw.pending_nodup.sublist (List.filter_sublist.map _)
    pending_member := by
      intro pending hp
      obtain ⟨hold, hkp⟩ := mem_filter.mp hp
      rw [not_eq_true', List.contains_eq_mem, decide_eq_false_iff_not,
        hacc.cleared_eq] at hkp
      by_contra hno
      refine hkp (mem_map.mpr ⟨pending, mem_filter.mpr ⟨hold, ?_⟩, rfl⟩)
      rw [not_eq_true', List.any_eq_false]
      intro member hmb heq
      exact hno ⟨member, hmb, beq_iff_eq.mp heq⟩ }

/-! ## Every run -/

/-- Every open Text group has its lists in step. -/
def TextRostersWf (db : ReferenceDb) : Prop :=
  ∀ k group, db.mlsGroups.get k = some group → group.open_ = true → group.kind = .text →
    RosterWf group

theorem textRostersWf_step (h : Step prim db op next) (hc : Coherent prim db)
    (hi : TextRostersWf db) : TextRostersWf next := by
  intro k g hget hon htx
  cases h.openText hc hget hon htx with
  | kept hold _ => exact hi k g hold hon htx
  | bound hop happ hgr hold _ _ => exact rosterWf_bindList (hi _ _ hold hon htx) happ hgr
  | created hcr _ => exact rosterWf_prepared hcr.is_prepared
  | @released userId _ serverId now group hold _ _ =>
    by_cases hp : db.pendsRemoval userId serverId group = true
    · rw [if_pos hp] at hon htx ⊢
      exact rosterWf_pushPending (hi k group hold hon htx) hp
    · rw [if_neg hp] at hon htx ⊢
      exact hi k group hold hon htx
  | committed hold _ hacc _ =>
    exact rosterWf_applyTextCommit (hi _ _ hold hacc.is_open hacc.kind_text) hacc

theorem textRostersWf_of_reachable {admits : ReferenceDb → Op → Prop}
    (h : Reachable (exec prim) admits .empty db) : Coherent prim db ∧ TextRostersWf db := by
  refine h.invariant (P := fun s => Coherent prim s ∧ TextRostersWf s)
    (fun s op _ hs => ⟨coherent_exec op hs.1, ?_⟩)
    ⟨coherent_empty prim, fun k g hg => absurd hg (by simp [ReferenceDb.empty])⟩
  exact textRostersWf_step (step_exec prim s op) hs.1 hs.2

/-- **The roster of a Text group is well formed.** In every reachable store, whatever was
called with whatever arguments, an open Text group has pairwise distinct members, at
most `maxMlsTextGroupMembers` of them; exactly one `memberAdded` entry for each member
and none for another device; and pending removals of pairwise distinct users, each with
a device in the roster. An accepted commit that leaves a user without a device leaves
no pending entry of that user. -/
theorem text_roster_wf (h : Reachable (exec prim) (fun _ _ => True) .empty db) {k : String}
    {group : MlsGroup} (hget : db.mlsGroups.get k = some group) (hopen : group.open_ = true)
    (htext : group.kind = .text) :
    (group.members.Nodup ∧ group.members.length ≤ maxMlsTextGroupMembers ∧
      (group.memberAdded.map (·.device)).Nodup ∧
      (∀ device, device ∈ group.memberAdded.map (·.device) ↔ device ∈ group.members) ∧
      (group.pendingRemovals.map (·.userId)).Nodup ∧
      ∀ pending ∈ group.pendingRemovals, ∃ member ∈ group.members, member.userId = pending.userId) ∧
    ∀ commit adSha256 cap after, commit.groupId = k →
      db.insertMlsTextCommit commit adSha256 cap = .ok (after, .won) →
      ∀ group' u, after.mlsGroups.get k = some group' →
        (∀ member ∈ group'.members, member.userId ≠ u) →
        ∀ pending ∈ group'.pendingRemovals, pending.userId ≠ u := by
  obtain ⟨hc, hi⟩ := textRostersWf_of_reachable h
  have hw := hi k group hget hopen htext
  refine ⟨⟨hw.members_nodup, hw.members_le, hw.added_nodup, hw.added_iff, hw.pending_nodup,
    hw.pending_member⟩, ?_⟩
  intro commit adSha256 cap after hk hwon group' u hget' hgone pending hp hu
  rcases insertMlsTextCommit_eq_ok hwon with ⟨-, winning, hlost, -⟩ | ⟨-, g, list, signed, plan, -,
    hg, -, hacc, hafter⟩
  · cases hlost
  · rw [hk, hget, some.injEq] at hg
    subst hg
    have hg' : group' = applyTextCommit group commit plan := by
      rw [hafter] at hget'
      rw [get_insert, if_pos hk.symm] at hget'
      exact (some.inj hget').symm
    have hw' : RosterWf group' := hg' ▸ rosterWf_applyTextCommit hw hacc
    obtain ⟨member, hmember, hmu⟩ := hw'.pending_member pending hp
    exact hgone member hmember (hmu.trans hu)

open Sample

/-- The sample group with a pending guest. -/
theorem text_roster_wf_released : (releasedGroup.memberAdded.map (·.device)).Nodup ∧
      ∃ member ∈ releasedGroup.members, member.userId = guest.userId := by
  have hreach : Reachable (exec primitives) (fun _ _ => True) .empty
      releasedStore := released_reachable.mono fun _ _ _ => trivial
  have hget : releasedStore.mlsGroups.get groupId = some releasedGroup := by
    decide
  have hwf := (text_roster_wf hreach hget rfl rfl).1
  exact ⟨hwf.2.2.1, hwf.2.2.2.2.2 ⟨guest.userId, seconds 4⟩ (by decide)⟩

end SlogaBackend.Mls
