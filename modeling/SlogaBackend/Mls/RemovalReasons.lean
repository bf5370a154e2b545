import SlogaBackend.Mls.Removal
import Mathlib.Data.List.MinMax

/-!
# The Remove rule, on the route and in the transaction

The route checks the removed devices of a Text commit one by one and notes for each the strongest
rule that admits it (`checkRemovals`); the commit transaction checks the rule again on the rows it
looks up (`planRemovals`). Both decide what `Admits` says, without its order of evaluation. They
differ on one input: without removed devices the route does not look at the commit's time.
-/

namespace SlogaBackend.Mls

open Checks ReferenceDb

/-! ## The route -/

/-- Rank of a Remove rule. -/
def removalPriority : MlsRemovalReason → Nat
  | .pendingRemoval => 5
  | .offList => 4
  | .revoked => 3
  | .ownUser => 2
  | .rejoin => 1

def rejoinOutstandingWindowSeconds : Int := 30

def MlsRemovedReason.device (removed : MlsRemovedReason) : MlsMemberDevice :=
  ⟨removed.userId, removed.deviceId⟩

def MlsJoinIntent.device (intent : MlsJoinIntent) : MlsMemberDevice :=
  ⟨intent.userId, intent.deviceId⟩

namespace ReferenceDb

def fetchE2eeIdentity (db : ReferenceDb) (userId deviceId : String) : Result Unit :=
  okOr (db.e2eeIdentities.get (identityCompositeId userId deviceId)) .notFound

def fetchMlsJoinIntentsForGroup (db : ReferenceDb) (groupId : String) : List MlsJoinIntent :=
  db.mlsJoinIntents.values.filter (·.groupId == groupId)

end ReferenceDb

structure RemovalCheck where
  db : ReferenceDb
  group : MlsGroup
  signed : SeatListBody
  committer : MlsMemberDevice
  windowStart : Timestamp

namespace RemovalCheck

variable (c : RemovalCheck)

/-- Rules 2 to 5, all of them; a read error is no evidence of revocation. -/
def admitting (device : MlsMemberDevice) : Result (List MlsRemovalReason) :=
  if isSignerDevice c.signed device then .ok []
  else
    let rules :=
      (if c.group.hasPendingRemoval device.userId then [.pendingRemoval] else []) ++
      (if isSignerDevice c.signed c.committer && !c.signed.seats.contains device.userId
        then [.offList] else []) ++
      (if device.userId == c.committer.userId then [.ownUser] else [])
    match c.db.fetchE2eeIdentity device.userId device.deviceId with
    | .ok _ => .ok rules
    | .error .notFound => .ok (rules ++ [.revoked])
    | .error error => if rules = [] then .error error else .ok rules

/-- A stored intent of the device, outstanding and newer than its last Add. -/
def outstanding (device : MlsMemberDevice) : Bool :=
  (c.db.fetchMlsJoinIntentsForGroup c.group.id).any fun intent =>
    intent.id == MlsJoinIntent.compositeId c.group.id device.userId device.deviceId &&
      intent.groupId == c.group.id && intent.userId == device.userId &&
      intent.deviceId == device.deviceId &&
      (addedAt c.group device).any fun at_ =>
        c.windowStart ≤ intent.createdAt && at_ < intent.createdAt

/-- The rule that admits a removed device. -/
def checkRemoval (device : MlsMemberDevice) : Result MlsRemovalReason := do
  refuseIf (c.group.hasMember device.userId device.deviceId = false)
    (failed "removed device is not a member")
  refuseIf (device = c.committer) (failed "a device cannot remove itself")
  let rules ← c.admitting device
  match rules.argmax removalPriority with
  | some reason => return reason
  | none =>
    refuseIf (c.outstanding device = false) (failed "removal not permitted")
    return .rejoin

def checkEach : List MlsMemberDevice → Result (List MlsRemovedReason)
  | [] => .ok []
  | device :: rest => do
    let reason ← c.checkRemoval device
    let reasons ← checkEach rest
    return ⟨device.userId, device.deviceId, reason⟩ :: reasons

/-- The transaction's check of one device, on the rows looked up for the removed ones. -/
def planRemoval (removed : List MlsMemberDevice) (device : MlsMemberDevice) :
    Result (Option MlsJoinIntent) :=
  admitRemoval c.group c.signed (c.db.storedIntentsFor c.group removed)
    (c.db.revokedIdentitiesFor removed) c.committer c.windowStart device

end RemovalCheck

def checkRemovals (db : ReferenceDb) (group : MlsGroup) (signed : SeatListBody)
    (committer : MlsMemberDevice) (removed : List MlsMemberDevice) (now : Timestamp) :
    Result (List MlsRemovedReason) :=
  if removed = [] then .ok []
  else do
    let windowStart ← okOr (Timestamp.checkedSub now
      (seconds rejoinOutstandingWindowSeconds)) (failed "invalid commit time")
    RemovalCheck.checkEach ⟨db, group, signed, committer, windowStart⟩ removed

/-- The removal part of `planMlsTextCommit`, on the rows the transaction looks up. -/
def planRemovals (db : ReferenceDb) (group : MlsGroup) (signed : SeatListBody)
    (committer : MlsMemberDevice) (removed : List MlsMemberDevice) (now : Timestamp) :
    Result (List MlsJoinIntent) := do
  let windowStart ← okOr (Timestamp.checkedSub now
    (seconds mlsRejoinOutstandingWindowSeconds)) (failed "invalid commit time")
  admitRemovals group signed (db.storedIntentsFor group removed) (db.revokedIdentitiesFor removed)
    committer windowStart removed

/-! ## What both decide -/

namespace RemovalCheck

structure LetsRejoin (c : RemovalCheck) (device : MlsMemberDevice) (intent : MlsJoinIntent) :
    Prop where
  stored : c.db.mlsJoinIntents.get
    (MlsJoinIntent.compositeId c.group.id device.userId device.deviceId) = some intent
  group_eq : intent.groupId = c.group.id
  user_eq : intent.userId = device.userId
  device_eq : intent.deviceId = device.deviceId
  recent : ∃ at_, addedAt c.group device = some at_ ∧ c.windowStart ≤ intent.createdAt ∧
    at_ < intent.createdAt

/-- A rule of 2 to 5 admits a device. -/
def Other (c : RemovalCheck) (device : MlsMemberDevice) (reason : MlsRemovalReason) : Prop :=
  isSignerDevice c.signed device = false ∧ match reason with
    | .ownUser => device.userId = c.committer.userId
    | .pendingRemoval => c.group.hasPendingRemoval device.userId = true
    | .revoked => c.db.e2eeIdentities.get (identityCompositeId device.userId device.deviceId) = none
    | .offList => isSignerDevice c.signed c.committer = true ∧ device.userId ∉ c.signed.seats
    | .rejoin => False

/-- A rule admits a device. -/
def Admits (c : RemovalCheck) (device : MlsMemberDevice) (reason : MlsRemovalReason) : Prop :=
  c.Other device reason ∨ reason = .rejoin ∧ ∃ intent, c.LetsRejoin device intent

/-- The strongest rule that admits a device. -/
def Strongest (c : RemovalCheck) (device : MlsMemberDevice) (reason : MlsRemovalReason) : Prop :=
  c.Admits device reason ∧
    ∀ other, c.Admits device other → removalPriority other ≤ removalPriority reason

variable {c : RemovalCheck} {device : MlsMemberDevice} {removed : List MlsMemberDevice}
  {intent : MlsJoinIntent}

theorem admitting_eq (device : MlsMemberDevice) : ∃ rules, c.admitting device = .ok rules ∧
    ∀ reason, reason ∈ rules ↔ c.Other device reason := by
  unfold admitting
  by_cases hsig : isSignerDevice c.signed device = true
  · exact ⟨[], if_pos hsig, by simp [Other, hsig]⟩
  · rw [if_neg hsig]
    cases hid : c.db.e2eeIdentities.get (identityCompositeId device.userId device.deviceId) with
    | some _ | none =>
      simp only [fetchE2eeIdentity, hid, okOr]
      refine ⟨_, rfl, fun reason => ?_⟩
      cases reason <;> simp [Other, hsig, hid]

theorem otherRule_iff (hmem : device ∈ removed) :
    otherRule c.group c.signed (c.db.revokedIdentitiesFor removed) c.committer device = true ↔
      ∃ reason, c.Other device reason := by
  have hrev : identityCompositeId device.userId device.deviceId ∈
      c.db.revokedIdentitiesFor removed ↔
        c.db.e2eeIdentities.get (identityCompositeId device.userId device.deviceId) = none := by
    rw [revokedIdentitiesFor, mem_filter, isNone_iff_eq_none]
    exact and_iff_right (mem_map.mpr ⟨device, hmem, rfl⟩)
  simp only [otherRule, and_eq_true, or_eq_true, not_eq_true', beq_iff_eq,
    contains_iff_mem, hrev]
  constructor
  · rintro ⟨hsig, ((h | h) | h) | ⟨h, hoff⟩⟩
    · exact ⟨.ownUser, hsig, h⟩
    · exact ⟨.pendingRemoval, hsig, h⟩
    · exact ⟨.revoked, hsig, h⟩
    · exact ⟨.offList, hsig, h, by simpa using hoff⟩
  · rintro ⟨reason, hsig, h⟩
    refine ⟨hsig, ?_⟩
    cases reason with
    | ownUser => exact .inl (.inl (.inl h))
    | pendingRemoval => exact .inl (.inl (.inr h))
    | revoked => exact .inl (.inr h)
    | offList => exact .inr ⟨h.1, by simpa using h.2⟩
    | rejoin => exact h.elim

section Keyed

variable (hk : IntentsKeyed c.db)
include hk

theorem outstanding_iff : c.outstanding device = true ↔ ∃ intent, c.LetsRejoin device intent := by
  simp only [outstanding, fetchMlsJoinIntentsForGroup, any_eq_true, mem_filter,
    and_eq_true, beq_iff_eq, Option.any_eq_true, decide_eq_true_eq, mem_values]
  constructor
  · rintro ⟨intent, ⟨⟨k, hg⟩, -⟩, ⟨⟨⟨hid, hgr⟩, huse⟩, hdev⟩, hrec⟩
    have hkey := hk k intent hg
    exact ⟨intent, by rw [← hid, hkey, hg], hgr, huse, hdev, hrec⟩
  · rintro ⟨intent, h⟩
    exact ⟨intent, ⟨⟨_, h.stored⟩, h.group_eq⟩,
      ⟨⟨⟨hk _ _ h.stored, h.group_eq⟩, h.user_eq⟩, h.device_eq⟩, h.recent⟩

theorem letsRejoin_iff (hmem : device ∈ removed) : c.LetsRejoin device intent ↔
    findIntent c.group (c.db.storedIntentsFor c.group removed) device = some intent ∧
      ∃ at_, addedAt c.group device = some at_ ∧ c.windowStart ≤ intent.createdAt ∧
        at_ < intent.createdAt := by
  constructor
  · intro h
    refine ⟨?_, h.recent⟩
    cases hfn : findIntent c.group (c.db.storedIntentsFor c.group removed) device with
    | some other => rw [← h.stored, (findIntent_eq_some hk hfn).1]
    | none =>
      refine absurd (List.find?_eq_none.mp hfn intent
        (mem_filterMap.mpr ⟨device, hmem, h.stored⟩)) ?_
      simp [hk _ _ h.stored, h.group_eq, h.user_eq, h.device_eq]
  · rintro ⟨hfn, hrec⟩
    obtain ⟨hg, hgr, huse, hdev⟩ := findIntent_eq_some hk hfn
    exact ⟨hg, hgr, huse, hdev, hrec⟩

/-! ## One device, and all of them -/

/-- The route finds the strongest rule, and the plan copies an intent for a rejoin only. -/
theorem checkRemoval_alike (hmem : device ∈ removed) :
    Alike (fun reason justified => c.Strongest device reason ∧
        justified.toList.map (·.device) = if reason = .rejoin then [device] else [])
      (c.checkRemoval device) (c.planRemoval removed device) := by
  refine (alike_refuseIf Iff.rfl).bind fun _ _ _ => (alike_refuseIf ?_).bind fun _ _ _ => ?_
  · cases device
    cases c.committer
    simp
  obtain ⟨rules, hrul, hall⟩ := admitting_eq device
  rw [bind_of_eq_ok hrul]
  by_cases hoth : ∃ reason, c.Other device reason
  · obtain ⟨reason, hreas⟩ : ∃ reason, rules.argmax removalPriority = some reason := by
      obtain ⟨reason, h⟩ := hoth
      refine ne_none_iff_exists'.mp fun hno => ?_
      have hin := (hall reason).mpr h
      rw [List.argmax_eq_none.mp hno] at hin
      cases hin
    have hrl := (hall reason).mp (List.argmax_mem hreas)
    rw [if_pos ((otherRule_iff hmem).mpr hoth), hreas]
    refine ⟨⟨.inl hrl, ?_⟩, (if_neg ?_).symm⟩
    · rintro other (h | ⟨rfl, -⟩)
      · exact List.le_of_mem_argmax ((hall other).mpr h) hreas
      · cases reason <;> decide
    · rintro rfl
      exact hrl.2
  · have hnil : rules = [] := List.eq_nil_iff_forall_not_mem.mpr fun reason h =>
      hoth ⟨reason, (hall reason).mp h⟩
    rw [if_neg (mt (otherRule_iff hmem).mp hoth), hnil, List.argmax_nil]
    by_cases hrej : ∃ intent, c.LetsRejoin device intent
    · rw [bind_of_eq_ok (refuseIf_eq_ok (u := ()).mpr (by simp [(outstanding_iff hk).mpr hrej]))]
      obtain ⟨intent, h⟩ := hrej
      obtain ⟨hfn, at_, hadd, hrec⟩ := (letsRejoin_iff hk hmem).mp h
      rw [hfn, hadd]
      dsimp only
      rw [if_pos hrec]
      refine ⟨⟨.inr ⟨rfl, intent, h⟩, ?_⟩, ?_⟩
      · rintro other (h | ⟨rfl, -⟩)
        · exact absurd ⟨other, h⟩ hoth
        · exact le_refl _
      · rw [if_pos rfl, Option.toList_some, List.map_singleton, MlsJoinIntent.device, h.user_eq,
          h.device_eq]
    · rw [refuseIf, if_pos (by simpa using mt (outstanding_iff hk).mp hrej)]
      cases hfn : findIntent c.group (c.db.storedIntentsFor c.group removed) device with
      | none => trivial
      | some intent =>
        cases hadd : addedAt c.group device with
        | none => trivial
        | some at_ =>
          dsimp only
          rw [if_neg fun h => hrej ⟨intent, (letsRejoin_iff hk hmem).mpr ⟨hfn, at_, hadd, h⟩⟩]
          trivial

theorem checkEach_alike {devices : List MlsMemberDevice} (hsub : devices ⊆ removed) :
    Alike (fun reasons intents => reasons.map (·.device) = devices ∧
        (∀ r ∈ reasons, c.Strongest r.device r.reason) ∧
        intents.map (·.device) = (reasons.filter (·.reason == .rejoin)).map (·.device))
      (c.checkEach devices) (admitRemovals c.group c.signed (c.db.storedIntentsFor c.group removed)
        (c.db.revokedIdentitiesFor removed) c.committer c.windowStart devices) := by
  induction devices with
  | nil => exact ⟨rfl, by simp, rfl⟩
  | cons device devices ih =>
    obtain ⟨hmem, hrs⟩ := List.cons_subset.mp hsub
    refine (checkRemoval_alike hk hmem).bind fun reason justified hone => (ih hrs).bind ?_
    rintro reasons intents ⟨hmap, hall, hrej⟩
    refine ⟨congrArg (device :: ·) hmap, List.forall_mem_cons.mpr ⟨hone.1, hall⟩, ?_⟩
    rw [map_append, hone.2, hrej, List.filter_cons]
    by_cases h : reason = .rejoin <;> simp [h, MlsRemovedReason.device]

end Keyed

end RemovalCheck

variable {db : ReferenceDb} {group : MlsGroup} {signed : SeatListBody}
  {committer : MlsMemberDevice} {removed : List MlsMemberDevice} {now : Timestamp}

/-- **The route and the transaction agree on the Remove rule**, unless nothing is removed at a
time that has no rejoin window before it. Where they let a commit pass, the route notes one
reason for each removed device, in order, the strongest rule that admits it, and it notes a rejoin
for the devices whose intents the plan copies. -/
theorem remove_rule_agrees (hk : IntentsKeyed db)
    (hwindow : removed ≠ [] ∨ (Timestamp.checkedSub now
      (seconds rejoinOutstandingWindowSeconds)).isSome) :
    rejoinOutstandingWindowSeconds = mlsRejoinOutstandingWindowSeconds ∧
    ((∃ reasons, checkRemovals db group signed committer removed now = .ok reasons) ↔
      ∃ intents, planRemovals db group signed committer removed now = .ok intents) ∧
    ∀ reasons, checkRemovals db group signed committer removed now = .ok reasons →
      reasons.map (·.device) = removed ∧
      (∀ r ∈ reasons, RemovalCheck.Strongest ⟨db, group, signed, committer,
        now - seconds rejoinOutstandingWindowSeconds⟩ r.device r.reason) ∧
      ∀ intents, planRemovals db group signed committer removed now = .ok intents →
        intents.map (·.device) = (reasons.filter (·.reason == .rejoin)).map (·.device) := by
  have halike : Alike (fun reasons intents => reasons.map (·.device) = removed ∧
      (∀ r ∈ reasons, RemovalCheck.Strongest ⟨db, group, signed, committer,
        now - seconds rejoinOutstandingWindowSeconds⟩ r.device r.reason) ∧
      intents.map (·.device) = (reasons.filter (·.reason == .rejoin)).map (·.device))
      (checkRemovals db group signed committer removed now)
      (planRemovals db group signed committer removed now) := by
    unfold checkRemovals planRemovals
    rw [show mlsRejoinOutstandingWindowSeconds = rejoinOutstandingWindowSeconds from rfl]
    cases hw : Timestamp.checkedSub now (seconds rejoinOutstandingWindowSeconds) with
    | none =>
      rw [hw] at hwindow
      rw [if_neg (hwindow.resolve_right (by simp))]
      trivial
    | some windowStart =>
      cases Timestamp.checkedSub_eq_some hw
      split
      · subst removed
        exact ⟨rfl, by simp, rfl⟩
      · exact RemovalCheck.checkEach_alike (c := ⟨db, group, signed, committer, _⟩) hk
          (List.Subset.refl removed)
  refine ⟨rfl, halike.iff, fun reasons hreasons => ?_⟩
  obtain ⟨intents, hintents⟩ := halike.iff.mp ⟨reasons, hreasons⟩
  rw [hreasons, hintents] at halike
  refine ⟨halike.1, halike.2.1, fun other hother => ?_⟩
  cases hintents.symm.trans hother
  exact halike.2.2

open Sample

/-- Without removed devices, at the first instant there is. -/
theorem remove_rule_differs :
    (∃ reasons, checkRemovals releasedStore releasedGroup genesisBody
      owner [] Timestamp.minimum = .ok reasons) ∧
    ¬ ∃ intents, planRemovals releasedStore releasedGroup genesisBody
      owner [] Timestamp.minimum = .ok intents := by
  refine ⟨⟨[], rfl⟩, ?_⟩
  rintro ⟨intents, h⟩
  cases h

/-- A device whose user's seat was released is removed for that, and no intent is copied. -/
theorem remove_rule_agrees_eviction :
    ∃ intents, planRemovals releasedStore releasedGroup genesisBody
        owner [guest] (seconds 6) = .ok intents ∧
      intents.map (·.device) = [] := by
  have hk : IntentsKeyed releasedStore := by
    intro k intent h
    cases h
  have hcheck : checkRemovals releasedStore releasedGroup genesisBody
      owner [guest] (seconds 6) =
        .ok [⟨guest.userId, guest.deviceId, .pendingRemoval⟩] := by
    decide
  obtain ⟨-, hiff, hall⟩ := remove_rule_agrees hk (.inl (List.cons_ne_nil _ _))
  obtain ⟨intents, hplan⟩ := hiff.mp ⟨_, hcheck⟩
  exact ⟨intents, hplan, (hall _ hcheck).2.2 intents hplan⟩

end SlogaBackend.Mls
