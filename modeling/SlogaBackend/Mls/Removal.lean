import SlogaBackend.Mls.TextRoster
import SlogaBackend.Mls.TextEpochs

/-!
# Who may remove a device from a Text group

An accepted commit removes a device under one of five rules. Four of them ---
the committer's own user, a pending removal, a revoked identity, a user off the list
removed by the signer --- never apply to the device that signed the current list. The
fifth, the rejoin rule, needs a join intent of that very device, stored for this group,
at most 30 seconds old and newer than the device's last Add.

A stale intent must not evict a device twice. It cannot: the removal consumes the
intent, the device is out of the roster, and coming back takes an Add, which consumes
whatever intent of the device is stored and dates the device anew. So the intent of
the second removal was stored after the Add, and is younger than it
(`removal_authority`, second part).
-/

namespace SlogaBackend.Mls

open Checks ReferenceDb

variable {prim : Primitives} {db next : ReferenceDb} {op : Op}

/-! ## Stored intents -/

/-- Join intents sit under their own ids. -/
def IntentsKeyed (db : ReferenceDb) : Prop :=
  ∀ k intent, db.mlsJoinIntents.get k = some intent → intent.id = k

variable {intent : MlsJoinIntent} {h : List (ReferenceDb × Op)} {list : SeatList}
  {signed : SeatListBody} {adSha256 : String}

theorem Step.intent_before (h : Step prim db op next) {k : String}
    (hg : next.mlsJoinIntents.get k = some intent) :
    db.mlsJoinIntents.get k = some intent ∨ (op = .upsertMlsJoinIntent intent ∧ intent.id = k) := by
  cases h with
  | same | environment | grant | release | createCall | close | prune | listWrite => exact .inl hg
  | @createText group prepared supersedes list squat hcr =>
    cases squat with
    | false => exact .inl hg
    | true => exact .inl (get_retain_eq_some.mp hg).1
  | delete | sweep => exact .inl (get_retain_eq_some.mp hg).1
  | callCommit | textCommit =>
    rw [get_eraseAll] at hg
    split at hg
    · cases hg
    · exact .inl hg
  | intent stored =>
    have hg' : (db.mlsJoinIntents.insert stored.id stored).get k = some intent := hg
    rw [get_insert] at hg'
    split at hg'
    · rename_i hk
      rw [← some.inj hg', hk]
      exact .inr ⟨rfl, rfl⟩
    · exact .inl hg'

theorem intentsKeyed_step (h : Step prim db op next) (hk : IntentsKeyed db) :
    IntentsKeyed next := by
  intro k intent hg
  rcases h.intent_before hg with hold | ⟨-, hid⟩
  · exact hk k intent hold
  · exact hid

theorem intentsKeyed_of_run {admits : ReferenceDb → Op → Prop}
    (hrun : Run (exec prim) admits .empty h db) : IntentsKeyed db :=
  hrun.invariant (fun s op _ hs => intentsKeyed_step (step_exec prim s op) hs)
    (fun k intent hg => absurd hg (by simp [ReferenceDb.empty]))

/-- The device's own join intent for the group is stored, no older than the rejoin window
at the commit's time and newer than the device's last Add. -/
structure Rejoins (db : ReferenceDb) (group : MlsGroup) (commit : MlsCommit)
    (device : MlsMemberDevice) (intent : MlsJoinIntent) : Prop where
  stored : db.mlsJoinIntents.get
    (MlsJoinIntent.compositeId group.id device.userId device.deviceId) = some intent
  group_eq : intent.groupId = group.id
  user_eq : intent.userId = device.userId
  device_eq : intent.deviceId = device.deviceId
  in_window : commit.createdAt - seconds mlsRejoinOutstandingWindowSeconds ≤
    intent.createdAt
  after_add : ∃ at_, addedAt group device = some at_ ∧ at_ < intent.createdAt

variable {group : MlsGroup} {device : MlsMemberDevice} {commit : MlsCommit}

theorem findIntent_eq_some (hk : IntentsKeyed db) {removed : List MlsMemberDevice}
    (h : findIntent group (db.storedIntentsFor group removed) device = some intent) :
    db.mlsJoinIntents.get
        (MlsJoinIntent.compositeId group.id device.userId device.deviceId) = some intent ∧
      intent.groupId = group.id ∧ intent.userId = device.userId ∧
      intent.deviceId = device.deviceId := by
  have hmat := List.find?_some h
  simp only [and_eq_true, beq_iff_eq] at hmat
  obtain ⟨⟨⟨hid, hgr⟩, huse⟩, hdevi⟩ := hmat
  obtain ⟨other, -, hg⟩ := mem_filterMap.mp (mem_of_find?_eq_some h)
  have hkey := hk _ intent hg
  rw [← hkey, hid] at hg
  exact ⟨hg, hgr, huse, hdevi⟩

theorem rejoins_of_justified (hk : IntentsKeyed db)
    (h : RejoinJustified group (db.storedIntentsFor group commit.removed) commit intent device) :
    Rejoins db group commit device intent := by
  obtain ⟨hg, hgr, huse, hdevi⟩ := findIntent_eq_some hk h.found
  exact ⟨hg, hgr, huse, hdevi, h.in_window, h.after_add⟩

/-! ## One accepted commit -/

/-- The reasons other than a rejoin for which a device may be removed. -/
def OtherReason (db : ReferenceDb) (group : MlsGroup) (list : SeatList) (signed : SeatListBody)
    (commit : MlsCommit) (device : MlsMemberDevice) : Prop :=
  device.userId = commit.committer.userId ∨
    (∃ pending ∈ group.pendingRemovals, pending.userId = device.userId) ∨
    db.e2eeIdentities.get (identityCompositeId device.userId device.deviceId) = none ∨
    (commit.committer = ⟨list.signerUserId, list.signerDeviceId⟩ ∧ device.userId ∉ signed.seats)

section

variable (hu : signed.signerUserId = list.signerUserId)
  (hd : signed.signerDeviceId = list.signerDeviceId)
include hu hd

theorem isSignerDevice_iff :
    isSignerDevice signed device = true ↔ device = ⟨list.signerUserId, list.signerDeviceId⟩ := by
  unfold isSignerDevice
  rw [and_eq_true, beq_iff_eq, beq_iff_eq, hu, hd]
  constructor
  · rintro ⟨h1, h2⟩
    rw [← h1, ← h2]
  · intro h
    rw [h]
    exact ⟨rfl, rfl⟩

theorem otherReason_of_otherRule
    (h : otherRule group signed (db.revokedIdentitiesFor commit.removed) commit.committer device =
      true) : device ≠ ⟨list.signerUserId, list.signerDeviceId⟩ ∧
      OtherReason db group list signed commit device := by
  simp only [otherRule, and_eq_true, or_eq_true, not_eq_true', beq_iff_eq] at h
  obtain ⟨hsig, hrl⟩ := h
  refine ⟨fun heq => ?_, ?_⟩
  · have htr := (isSignerDevice_iff hu hd).mpr heq
    rw [hsig] at htr
    cases htr
  · rcases hrl with ((hown | hpend) | hrev) | ⟨hcom, hoff⟩
    · exact .inl hown
    · exact .inr (.inl (MlsGroup.hasPendingRemoval_iff.mp hpend))
    · rw [contains_iff_mem, revokedIdentitiesFor, mem_filter,
        isNone_iff_eq_none] at hrev
      exact .inr (.inr (.inl hrev.2))
    · refine .inr (.inr (.inr ⟨(isSignerDevice_iff hu hd).mp hcom, ?_⟩))
      simpa using hoff

end

variable {plan : MlsTextCommitPlan} {groupId : String} {time : Timestamp}

/-- **What an accepted commit may remove.** -/
theorem removal_admitted (hk : IntentsKeyed db)
    (hacc : TextCommitAccepted group commit adSha256 list signed
      (db.storedIntentsFor group commit.removed) (db.revokedIdentitiesFor commit.removed)
      (db.activeSeatUsersFor group.channelId commit.added) plan) (hdevi : device ∈ commit.removed) :
    device ∈ group.members ∧ device ≠ commit.committer ∧
      ((∃ intent, Rejoins db group commit device intent) ∨
        (device ≠ ⟨list.signerUserId, list.signerDeviceId⟩ ∧
          OtherReason db group list signed commit device)) := by
  have hadm := hacc.removals device hdevi
  refine ⟨hadm.was_member, hadm.not_self, ?_⟩
  rcases hadm.reason with hrl | ⟨intent, at_, hfnd, hadde, hwin, haft, -⟩
  · exact .inr (otherReason_of_otherRule hacc.signer_user hacc.signer_device hrl)
  · exact .inl ⟨intent, rejoins_of_justified hk ⟨hfnd, hwin, at_, hadde, haft⟩⟩

/-! ## Removals and Adds along a run -/

/-- An accepted Text commit removed the device under the rejoin rule, with the intent. -/
def RejoinRemoved (prim : Primitives) (db : ReferenceDb) (commit : MlsCommit) (adSha256 : String)
    (cap : Nat) (device : MlsMemberDevice) (intent : MlsJoinIntent) : Prop :=
  Won prim db (.insertMlsTextCommit commit adSha256 cap) ∧ device ∈ commit.removed ∧
    ∃ row, (exec prim db (.insertMlsTextCommit commit adSha256 cap)).1.mlsCommits.get
        (textCommitKey (MlsCommit.compositeId commit.groupId commit.epoch)) = some row ∧
      intent ∈ row.rejoinIntents ∧ intent.userId = device.userId ∧
      intent.deviceId = device.deviceId

/-- An accepted Text commit added the device at a time. -/
def AddedByCommit (prim : Primitives) (db : ReferenceDb) (op : Op) (groupId : String)
    (device : MlsMemberDevice) (time : Timestamp) : Prop :=
  ∃ commit adSha256 cap, op = .insertMlsTextCommit commit adSha256 cap ∧ Won prim db op ∧
    commit.groupId = groupId ∧ device ∈ commit.added ∧ time = commit.createdAt

/-- The group was created by the device at a time. -/
def AddedByCreation (prim : Primitives) (db : ReferenceDb) (op : Op) (groupId : String)
    (device : MlsMemberDevice) (time : Timestamp) : Prop :=
  ∃ group supersedes, op = .createTextMlsGroup group supersedes ∧
    ¬ TextAlive db groupId ∧ TextAlive (exec prim db op).1 groupId ∧ group.id = groupId ∧
    group.createdBy = device ∧ time = group.createdAt

/-- The device is in the Text group, dated at a time. -/
def DatedMember (db : ReferenceDb) (groupId : String) (device : MlsMemberDevice)
    (time : Timestamp) : Prop :=
  ∃ group, db.mlsGroups.get groupId = some group ∧ group.kind = .text ∧
    device ∈ group.members ∧ addedAt group device = some time

theorem rejoinRemoved_spec (hk : IntentsKeyed db) {cap : Nat}
    (h : RejoinRemoved prim db commit adSha256 cap device intent) :
    (∃ group, db.mlsGroups.get commit.groupId = some group ∧ group.kind = .text ∧
      device ∈ group.members ∧ group.id = commit.groupId ∧ Rejoins db group commit device intent) ∧
    (∀ time, ¬ DatedMember (exec prim db (.insertMlsTextCommit commit adSha256 cap)).1
      commit.groupId device time) ∧
    (exec prim db (.insertMlsTextCommit commit adSha256 cap)).1.mlsJoinIntents.get
      (MlsJoinIntent.compositeId commit.groupId device.userId device.deviceId) = none := by
  obtain ⟨hwon, hrem, row, hrow, hint, huse, hdevi⟩ := h
  obtain ⟨group, list, signed, plan, -, hg, -, hacc, hnx⟩ := won_textCommit hwon
  rw [hnx] at hrow ⊢
  rw [get_insert_self] at hrow
  rw [← some.inj hrow] at hint
  obtain ⟨other, -, hjs⟩ := hacc.rejoins intent hint
  have hrej := rejoins_of_justified hk hjs
  have hoth : other = device := by
    cases other
    cases device
    simp
    exact ⟨hrej.user_eq.symm.trans huse, hrej.device_eq.symm.trans hdevi⟩
  rw [hoth] at hrej
  have hid : intent.id =
      MlsJoinIntent.compositeId commit.groupId device.userId device.deviceId := by
    rw [hacc.group_id]
    exact hk _ intent hrej.stored
  refine ⟨⟨group, hg, hacc.kind_text, (hacc.removals device hrem).was_member,
    hacc.group_id.symm, hrej⟩, ?_, ?_⟩
  · rintro time ⟨group', hg', -, hmb, -⟩
    rw [get_insert_self] at hg'
    rw [← some.inj hg'] at hmb
    have hmb' : device ∈ plan.members := hmb
    rw [hacc.members_eq, mem_applyDelta] at hmb'
    rcases hmb' with ⟨-, hnot⟩ | hadde
    · exact hnot hrem
    · exact (nodup_append.mp hacc.nodup).2.2 device hadde device hrem rfl
  · rw [get_eraseAll, if_pos]
    rw [hacc.consumed_eq, ← hid]
    exact mem_append_right _ (mem_map.mpr ⟨intent, hint, rfl⟩)

/-! ## When a device is dated -/

def isEntryOf (device : MlsMemberDevice) (entry : MlsMemberAdded) : Bool :=
  entry.userId == device.userId && entry.deviceId == device.deviceId

theorem isEntryOf_iff {entry : MlsMemberAdded} :
    isEntryOf device entry = true ↔ entry.device = device := by
  unfold isEntryOf MlsMemberAdded.device
  rw [and_eq_true, beq_iff_eq, beq_iff_eq]
  rw [MlsMemberDevice.mk.injEq]

theorem addedAt_eq (group : MlsGroup) (device : MlsMemberDevice) :
    addedAt group device = (group.memberAdded.find? (isEntryOf device)).map (·.at_) := rfl

theorem find?_filter_of_imp {α : Type*} {p q : α → Bool} {l : List α}
    (h : ∀ a, p a = true → q a = true) : (l.filter q).find? p = l.find? p := by
  rw [List.find?_filter]
  congr 1
  funext a
  cases hp : p a with
  | false => simp
  | true => simp [h a hp]

theorem find?_addedEntries (commit : MlsCommit) (device : MlsMemberDevice) :
    ((commit.added.map fun added =>
      ({ userId := added.userId, deviceId := added.deviceId, epoch := commit.epoch,
         at_ := commit.createdAt } : MlsMemberAdded)).find? (isEntryOf device)).map (·.at_) =
      if device ∈ commit.added then some commit.createdAt else none := by
  induction commit.added with
  | nil => rfl
  | cons added rest ih =>
    rw [map_cons, List.find?_cons]
    by_cases hd : added = device
    · have heq : isEntryOf device ⟨added.userId, added.deviceId, commit.epoch,
          commit.createdAt⟩ = true := isEntryOf_iff.mpr hd
      rw [heq, hd, if_pos mem_cons_self]
      rfl
    · have hne : isEntryOf device ⟨added.userId, added.deviceId, commit.epoch,
          commit.createdAt⟩ = false := by
        rw [← Bool.not_eq_true]
        exact fun h => hd (isEntryOf_iff.mp h)
      rw [hne, ih]
      simp [Ne.symm hd]

/-- The dates after an accepted commit: its own time for the devices it adds, the old
date for those it leaves alone. -/
theorem addedAt_applyTextCommit {intents : List MlsJoinIntent} {revoked active : List String}
    (hw : RosterWf group)
    (hacc : TextCommitAccepted group commit adSha256 list signed intents revoked active plan)
    (hdevi : device ∈ plan.members) : (device ∈ commit.added ∧
      addedAt (applyTextCommit group commit plan) device = some commit.createdAt) ∨
    (device ∈ group.members ∧
      addedAt (applyTextCommit group commit plan) device = addedAt group device) := by
  have hents : (applyTextCommit group commit plan).memberAdded =
      memberAddedAfter group commit := hacc.memberAdded_eq
  rw [hacc.members_eq, mem_applyDelta] at hdevi
  rw [addedAt_eq, hents, memberAddedAfter, List.find?_append, Option.map_or, find?_addedEntries]
  by_cases hadde : device ∈ commit.added
  · -- a device that is added had no entry
    have hold : (group.memberAdded.filter fun entry => !commit.removed.any fun removed =>
        removed.userId == entry.userId && removed.deviceId == entry.deviceId).find?
        (isEntryOf device) = none := by
      rw [List.find?_eq_none]
      intro entry hent hcn
      have hmem : device ∈ group.memberAdded.map (·.device) :=
        mem_map.mpr ⟨entry, (mem_filter.mp hent).1, isEntryOf_iff.mp hcn⟩
      exact (hacc.adds device hadde).1 ((hw.added_iff device).mp hmem)
    rw [hold, if_pos hadde]
    exact .inl ⟨hadde, rfl⟩
  · rcases hdevi with ⟨hmb, hkp⟩ | hin
    · refine .inr ⟨hmb, ?_⟩
      rw [if_neg hadde, Option.or_none, find?_filter_of_imp, addedAt_eq]
      intro entry hent
      rw [not_eq_true', List.any_eq_false]
      intro removed hrem heq
      rw [and_eq_true, beq_iff_eq, beq_iff_eq] at heq
      have hdev : removed = device := by
        rw [← isEntryOf_iff.mp hent]
        rw [MlsMemberAdded.device, MlsMemberDevice.mk.injEq]
        exact heq
      exact hkp (hdev ▸ hrem)
    · exact absurd hin hadde

theorem createdText_alive {prepared : MlsGroup} {supersedes : Option String} {squat : Bool}
    (hcr : TextCreate prim db group supersedes list prepared squat) :
    ¬ TextAlive db prepared.id := by
  rintro ⟨old, hg, htx⟩
  rcases hcr.id_free with ⟨-, hno⟩ | ⟨-, taken, hsm, hcl⟩
  · rw [hg] at hno
    cases hno
  · rw [hg, some.injEq] at hsm
    rw [← hsm, htx] at hcl
    cases hcl

/-- **A device gets a date only by an accepted Add or by creating the group.** -/
theorem dated_by (hc : Coherent prim db) (hw : TextRostersWf db)
    (hbef : ¬ DatedMember db groupId device time)
    (haft : DatedMember (exec prim db op).1 groupId device time) :
    AddedByCommit prim db op groupId device time ∨
      AddedByCreation prim db op groupId device time := by
  obtain ⟨group', hg', htx', hmb', hdt'⟩ := haft
  have hst := (step_exec prim db op).group hc.groups_keyed groupId
  rw [hg'] at hst
  generalize hrow : some group' = row at hst
  cases hst with
  | same => exact absurd ⟨group', hrow.symm, htx', hmb', hdt'⟩ hbef
  | @bound _ _ _ group _ _ _ hold | @superseded _ _ successor group hold _
  | @pended _ _ _ _ group hold _ =>
    rw [some.inj hrow] at htx' hmb' hdt'
    exact absurd ⟨group, hold, htx', hmb', hdt'⟩ hbef
  | @createdText group prepared supersedes list squat hcr =>
    have hpr := hcr.is_prepared
    rw [some.inj hrow] at hmb' hdt'
    rw [hpr.members_eq, mem_singleton, hpr.creator_eq] at hmb'
    have hdt : addedAt prepared device = some group.createdAt := by
      have hent : isEntryOf device ⟨group.createdBy.userId, group.createdBy.deviceId, 0,
          group.createdAt⟩ = true := isEntryOf_iff.mpr hmb'.symm
      rw [addedAt_eq, hpr.added_eq, List.find?_cons, hent]
      rfl
    rw [hdt] at hdt'
    exact .inr ⟨group, supersedes, rfl, createdText_alive hcr, ⟨group', hg', htx'⟩,
      hpr.id_eq.symm, hmb'.symm, (some.inj hdt').symm⟩
  | createdCall hcr =>
    rw [some.inj hrow, hcr.kind_call] at htx'
    cases htx'
  | closed _ hcl | callCommitted _ hcl _ _ =>
    rw [some.inj hrow] at htx'
    cases hcl.symm.trans htx'
  | @textCommitted commit adSha256 cap group list signed plan hold hls hacc =>
    rw [some.inj hrow] at hmb' hdt'
    rcases addedAt_applyTextCommit (hw _ group hold hacc.is_open hacc.kind_text) hacc hmb' with
      ⟨hadde, hnow⟩ | ⟨hmb, hsa⟩
    · rw [hnow] at hdt'
      refine .inl ⟨commit, adSha256, cap, rfl, won_of_change ?_, rfl, hadde,
        (some.inj hdt').symm⟩
      intro heq
      rw [heq, hold] at hg'
      have hgg := (some.inj hg').trans (some.inj hrow)
      have hep := congrArg MlsGroup.currentEpoch hgg
      have hsc := hacc.epoch_eq
      unfold applyTextCommit at hep
      dsimp only at hep
      omega
    · exact absurd ⟨group, hold, hacc.kind_text, hmb, hsa ▸ hdt'⟩ hbef
  | deleted _ _ | swept _ _ => cases hrow

theorem addedByCommit_consumes (h : AddedByCommit prim db op groupId device time) :
    (exec prim db op).1.mlsJoinIntents.get
      (MlsJoinIntent.compositeId groupId device.userId device.deviceId) = none := by
  obtain ⟨commit, adSha256, cap, rfl, hwon, rfl, hadde, -⟩ := h
  obtain ⟨group, list, signed, plan, -, -, -, hacc, hnx⟩ := won_textCommit hwon
  rw [hnx]
  rw [get_eraseAll, if_pos]
  rw [hacc.consumed_eq, hacc.group_id]
  exact mem_append_left _ (mem_map.mpr ⟨device, hadde, rfl⟩)

/-- An intent stored at the end of a run that started without it was stored on the way. -/
theorem intent_history {start : ReferenceDb} {key : String}
    (hrun : Run (exec prim) (fun _ _ => True) start h db)
    (hstar : start.mlsJoinIntents.get key = none) (hend : db.mlsJoinIntents.get key = some intent) :
    ∃ m, (m, Op.upsertMlsJoinIntent intent) ∈ h := by
  have hnot : ¬ start.mlsJoinIntents.get key = some intent := by
    rw [hstar]
    simp
  obtain ⟨h1, m, op, h2, rfl, -, hbef, haft⟩ :=
    hrun.exists_change (P := fun s => s.mlsJoinIntents.get key = some intent) hnot hend
  rcases (step_exec prim m op).intent_before haft with hold | ⟨rfl, -⟩
  · exact absurd hold hbef
  · exact ⟨m, by simp⟩

/-- Between two rejoin removals of a device there is an Add of it, and the intent of the
second removal was stored after it and is newer. -/
theorem rejoin_history {m1 m2 : ReferenceDb} {commit1 commit2 : MlsCommit}
    {adSha2561 adSha2562 : String} {cap1 cap2 : Nat} {intent1 intent2 : MlsJoinIntent}
    (hc : Coherent prim m1) (hw : TextRostersWf m1) (hk : IntentsKeyed m1)
    (h1 : RejoinRemoved prim m1 commit1 adSha2561 cap1 device intent1)
    (hrun : Run (exec prim) (fun _ _ => True)
      (exec prim m1 (.insertMlsTextCommit commit1 adSha2561 cap1)).1 h m2)
    (h2 : RejoinRemoved prim m2 commit2 adSha2562 cap2 device intent2)
    (hgr : commit2.groupId = commit1.groupId) :
    ∃ h3 m op h4 time, h = h3 ++ (m, op) :: h4 ∧ time < intent2.createdAt ∧
      ((AddedByCommit prim m op commit1.groupId device time ∧
          ∃ m', (m', .upsertMlsJoinIntent intent2) ∈ h4) ∨
        (AddedByCreation prim m op commit1.groupId device time ∧
          ∃ m', (m', .upsertMlsJoinIntent intent2) ∈ h)) := by
  -- what holds along the way
  have hinv : ∀ {s : ReferenceDb} {l : List (ReferenceDb × Op)}, Run (exec prim) (fun _ _ => True)
        (exec prim m1 (.insertMlsTextCommit commit1 adSha2561 cap1)).1 l s →
      Coherent prim s ∧ TextRostersWf s ∧ IntentsKeyed s := by
    intro s l hl
    refine hl.invariant (P := fun s => Coherent prim s ∧ TextRostersWf s ∧ IntentsKeyed s)
      (fun s op _ hs => ⟨coherent_exec op hs.1, textRostersWf_step (step_exec prim s op) hs.1 hs.2.1,
        intentsKeyed_step (step_exec prim s op) hs.2.2⟩)
      ⟨coherent_exec _ hc, textRostersWf_step (step_exec prim m1 _) hc hw,
        intentsKeyed_step (step_exec prim m1 _) hk⟩
  obtain ⟨-, hout, hcon⟩ := rejoinRemoved_spec hk h1
  obtain ⟨⟨group2, hg2, htx2, hmb2, hid2, hrej2⟩, -, -⟩ := rejoinRemoved_spec (hinv hrun).2.2 h2
  obtain ⟨time, hdt, hlt⟩ := hrej2.after_add
  have hsto := hrej2.stored
  rw [hgr] at hg2
  rw [hid2, hgr] at hsto
  obtain ⟨h3, m, op, h4, rfl, -, hbef, haft⟩ :=
    hrun.exists_change (P := fun s => DatedMember s commit1.groupId device time) (hout time)
      ⟨group2, hg2, htx2, hmb2, hdt⟩
  obtain ⟨hrun3, -, hrun4⟩ := hrun.split_at
  refine ⟨h3, m, op, h4, time, rfl, hlt, ?_⟩
  rcases dated_by (hinv hrun3).1 (hinv hrun3).2.1 hbef haft with hadd | hcr
  · exact .inl ⟨hadd, intent_history hrun4 (addedByCommit_consumes hadd) hsto⟩
  · exact .inr ⟨hcr, intent_history hrun hcon hsto⟩

/-- **Removal authority in Text groups.** Along every run from the empty store:

* every device that an accepted Text commit removes was a member and is not the
  committer's; the device that signed the channel's list is removed only under the
  rejoin rule, any other device under that rule or because it is the committer's own
  user's, pending removal, of a revoked identity, or off the list and removed by the
  signer;
* between two accepted rejoin removals of one device from one group the device was added
  by an accepted commit, after which the intent of the second removal was stored, and
  that intent is newer than the Add. Where the group itself was deleted in between, the
  device may instead have come back by creating the group anew. -/
theorem removal_authority {h : List (ReferenceDb × Op)}
    (hrun : Run (exec prim) (fun _ _ => True) .empty h db) :
    (∀ commit adSha256 cap, Won prim db (.insertMlsTextCommit commit adSha256 cap) →
      ∃ group list signed, db.mlsGroups.get commit.groupId = some group ∧
        db.channelSeatLists.get group.channelId = some list ∧
        SeatListBody.parse list.body = .ok signed ∧
        ∀ device ∈ commit.removed, device ∈ group.members ∧ device ≠ commit.committer ∧
          (device = ⟨list.signerUserId, list.signerDeviceId⟩ →
            ∃ intent, Rejoins db group commit device intent) ∧
          (device ≠ ⟨list.signerUserId, list.signerDeviceId⟩ →
            OtherReason db group list signed commit device ∨
              ∃ intent, Rejoins db group commit device intent)) ∧
    ∀ h₁ m₁ commit₁ adSha256₁ cap₁ h₂ m₂ commit₂ adSha256₂ cap₂ h₃ device intent₁ intent₂,
      h = h₁ ++ (m₁, .insertMlsTextCommit commit₁ adSha256₁ cap₁) ::
        (h₂ ++ (m₂, .insertMlsTextCommit commit₂ adSha256₂ cap₂) :: h₃) →
      RejoinRemoved prim m₁ commit₁ adSha256₁ cap₁ device intent₁ →
      RejoinRemoved prim m₂ commit₂ adSha256₂ cap₂ device intent₂ →
      commit₂.groupId = commit₁.groupId →
      ∃ h₄ m op h₅ time, h₂ = h₄ ++ (m, op) :: h₅ ∧ time < intent₂.createdAt ∧
        ((AddedByCommit prim m op commit₁.groupId device time ∧
            ∃ m', (m', .upsertMlsJoinIntent intent₂) ∈ h₅) ∨
          (AddedByCreation prim m op commit₁.groupId device time ∧
            ∃ m', (m', .upsertMlsJoinIntent intent₂) ∈ h₂)) := by
  refine ⟨?_, ?_⟩
  · intro commit adSha256 cap hwon
    obtain ⟨group, list, signed, plan, -, hget, hlist, hacc, -⟩ := won_textCommit hwon
    refine ⟨group, list, signed, hget, hlist, hacc.parsed, fun device hdevice => ?_⟩
    obtain ⟨hmember, hself, hreason⟩ := removal_admitted (intentsKeyed_of_run hrun) hacc hdevice
    refine ⟨hmember, hself, fun hsigner => ?_, fun _ => ?_⟩
    · rcases hreason with hrejoin | ⟨hnot, -⟩
      · exact hrejoin
      · exact absurd hsigner hnot
    · rcases hreason with hrejoin | ⟨-, hother⟩
      · exact .inr hrejoin
      · exact .inl hother
  · intro h₁ m₁ commit₁ adSha256₁ cap₁ h₂ m₂ commit₂ adSha256₂ cap₂ h₃ device intent₁ intent₂ heq
      hfirst hsecond hgroup
    subst heq
    obtain ⟨hrun₁, -, hrest⟩ := hrun.split_at
    obtain ⟨hrun₂, -, -⟩ := hrest.split_at
    obtain ⟨hc, hw⟩ := textRostersWf_of_reachable ⟨h₁, hrun₁⟩
    exact rejoin_history hc hw (intentsKeyed_of_run hrun₁) hfirst hrun₂ hsecond hgroup

open Sample

set_option maxRecDepth 10000 in
/-- The owner removes the guest's device after the guest's seat was released: a pending
removal. -/
theorem removal_authority_pending : ∃ group list signed,
      releasedStore.mlsGroups.get Sample.groupId = some group ∧
      releasedStore.channelSeatLists.get group.channelId = some list ∧
      SeatListBody.parse list.body = .ok signed ∧ guest ∈ group.members ∧
      OtherReason releasedStore group list signed eviction guest := by
  obtain ⟨h, hrun⟩ := released_reachable
  have hwon : Won primitives releasedStore
      (.insertMlsTextCommit eviction genesisSha256 0) := evict_won
  obtain ⟨group, list, signed, hget, hlist, hparse, hall⟩ :=
    (removal_authority (hrun.mono fun _ _ _ => trivial)).1 eviction genesisSha256 0
      hwon
  obtain ⟨hmember, -, -, hother⟩ := hall guest (by decide)
  have hlist' : list = genesisRow := by
    have hgroup : group = releasedGroup := by
      have hval : releasedStore.mlsGroups.get eviction.groupId =
          some releasedGroup := by
        decide
      exact some.inj (hget.symm.trans hval)
    have hval : releasedStore.channelSeatLists.get releasedGroup.channelId =
        some genesisRow := by
      decide
    rw [hgroup] at hlist
    exact some.inj (hlist.symm.trans hval)
  refine ⟨group, list, signed, hget, hlist, hparse, hmember, ?_⟩
  rcases hother (by rw [hlist']; decide) with hreason | ⟨intent, hrejoin⟩
  · exact hreason
  · have hnone : ∀ key, releasedStore.mlsJoinIntents.get key = none := fun _ => rfl
    cases hrejoin.stored.symm.trans (hnone _)

end SlogaBackend.Mls
