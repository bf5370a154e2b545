import SlogaBackend.Mls.Transactions
import SlogaBackend.Mls.Steps

/-!
# What the transactions stage

One specification for each attempt of `Mls.Transactions`, over the collections that
the protected-channel invariants are about: entitlements, seat lists, seats, groups and
commits. An attempt either stages no change there, it may still have touched documents,
or it is one of six effects. An `Effect` says what is staged and which documents are
written besides the ones that change: the list under a Text create, the entitlement and
the open Text group under a seat-list write, the seats of the added users under a Text
commit.

`effect_of_attempt` is the only place that looks inside the attempts.
-/

namespace SlogaBackend.Mls
namespace Txn

open Checks ReferenceDb

/-! ## Sound views -/

/-- In every collection the keys written cover what changed. -/
structure View.Sound (s : Store) (v : View) : Prop where
  channels : v.channels.Sound s.channels
  servers : v.servers.Sound s.servers
  serverMembers : v.serverMembers.Sound s.serverMembers
  channelEntitlements : v.channelEntitlements.Sound s.channelEntitlements
  channelSeatLists : v.channelSeatLists.Sound s.channelSeatLists
  channelSeats : v.channelSeats.Sound s.channelSeats
  mlsGroups : v.mlsGroups.Sound s.mlsGroups
  mlsCommits : v.mlsCommits.Sound s.mlsCommits
  mlsJoinIntents : v.mlsJoinIntents.Sound s.mlsJoinIntents
  e2eeQueue : v.e2eeQueue.Sound s.e2eeQueue

variable {s : Store} {v v' : View}

theorem View.sound_of (s : Store) : (View.of s).Sound s := by
  constructor <;> exact Staged.sound_of _

theorem View.Sound.claimGroupsFirst (h : v.Sound s) (filter : MlsGroup → Bool) :
    (v.claimGroupsFirst filter).Sound s :=
  { h with mlsGroups := h.mlsGroups.touchWhere filter }

section Keys

variable (v) {id : String}

theorem View.entitlement_mem_keys :
    DocKey.entitlement id ∈ v.keys ↔ id ∈ v.channelEntitlements.written := by
  simp [View.keys]

theorem View.seatList_mem_keys : DocKey.seatList id ∈ v.keys ↔ id ∈ v.channelSeatLists.written := by
  simp [View.keys]

theorem View.seat_mem_keys : DocKey.seat id ∈ v.keys ↔ id ∈ v.channelSeats.written := by
  simp [View.keys]

theorem View.group_mem_keys : DocKey.group id ∈ v.keys ↔ id ∈ v.mlsGroups.written := by
  simp [View.keys]

theorem View.commit_mem_keys : DocKey.commit id ∈ v.keys ↔ id ∈ v.mlsCommits.written := by
  simp [View.keys]

end Keys

/-! ## Claims -/

/-- The two steps of a seat-list write that only touch documents. -/
structure Claimed (v v' : View) : Prop where
  channels : v'.channels = v.channels
  channelSeatLists : v'.channelSeatLists = v.channelSeatLists
  channelSeats : v'.channelSeats = v.channelSeats
  mlsGroups : v'.mlsGroups = v.mlsGroups
  mlsCommits : v'.mlsCommits = v.mlsCommits
  mlsJoinIntents : v'.mlsJoinIntents = v.mlsJoinIntents
  e2eeQueue : v'.e2eeQueue = v.e2eeQueue
  servers : ∃ keys, v'.servers = v.servers.touch keys
  serverMembers : ∃ keys, v'.serverMembers = v.serverMembers.touch keys
  channelEntitlements : ∃ keys, v'.channelEntitlements = v.channelEntitlements.touch keys

theorem Claimed.refl (v : View) : Claimed v v :=
  ⟨rfl, rfl, rfl, rfl, rfl, rfl, rfl, ⟨[], rfl⟩, ⟨[], rfl⟩, ⟨[], rfl⟩⟩

theorem exists_touch_trans {κ V : Type} {a b c : Staged κ V} (hab : ∃ keys, b = a.touch keys)
    (hbc : ∃ keys, c = b.touch keys) : ∃ keys, c = a.touch keys := by
  obtain ⟨keys, rfl⟩ := hab
  obtain ⟨keys', rfl⟩ := hbc
  exact ⟨keys' ++ keys, Staged.touch_touch _ _ _⟩

theorem Claimed.trans {v1 v2 v3 : View} (h1 : Claimed v1 v2) (h2 : Claimed v2 v3) :
    Claimed v1 v3 where
  channels := h2.channels.trans h1.channels
  channelSeatLists := h2.channelSeatLists.trans h1.channelSeatLists
  channelSeats := h2.channelSeats.trans h1.channelSeats
  mlsGroups := h2.mlsGroups.trans h1.mlsGroups
  mlsCommits := h2.mlsCommits.trans h1.mlsCommits
  mlsJoinIntents := h2.mlsJoinIntents.trans h1.mlsJoinIntents
  e2eeQueue := h2.e2eeQueue.trans h1.e2eeQueue
  servers := exists_touch_trans h1.servers h2.servers
  serverMembers := exists_touch_trans h1.serverMembers h2.serverMembers
  channelEntitlements := exists_touch_trans h1.channelEntitlements h2.channelEntitlements

theorem Claimed.sound (h : Claimed v v') (hv : v.Sound s) : v'.Sound s := by
  obtain ⟨servers, hser⟩ := h.servers
  obtain ⟨members, hmbs⟩ := h.serverMembers
  obtain ⟨entitlements, hent⟩ := h.channelEntitlements
  exact {
    channels := h.channels ▸ hv.channels
    servers := hser ▸ hv.servers.touch servers
    serverMembers := hmbs ▸ hv.serverMembers.touch members
    channelEntitlements := hent ▸ hv.channelEntitlements.touch entitlements
    channelSeatLists := h.channelSeatLists ▸ hv.channelSeatLists
    channelSeats := h.channelSeats ▸ hv.channelSeats
    mlsGroups := h.mlsGroups ▸ hv.mlsGroups
    mlsCommits := h.mlsCommits ▸ hv.mlsCommits
    mlsJoinIntents := h.mlsJoinIntents ▸ hv.mlsJoinIntents
    e2eeQueue := h.e2eeQueue ▸ hv.e2eeQueue }

variable {kind : SeatListWriteKind} {now : Timestamp} {channelId : String}
  {submission : SeatListSubmission} {server : Option String} {answer : Response}

theorem claimed_claimServer (h : claimServer v channelId submission kind = .ok (v', server)) :
    Claimed v v' := by
  cases kind with
  | put =>
    simp only [claimServer, ok_eq_ok, Prod.mk.injEq] at h
    exact h.1 ▸ .refl v
  | protect =>
    simp only [claimServer, claimProtectServer, bind_eq_ok, pure_eq_ok, okOr_eq_ok,
      Prod.mk.injEq] at h
    obtain ⟨⟨w, serverId⟩, ⟨_, -, serverId', -, body, -, servers, hser, _, -, _, -, _, -, hw⟩,
      hv, -⟩ := h
    obtain ⟨_, -, -, rfl⟩ := Staged.touchOne_eq_some hser
    cases hw
    rw [← hv]
    exact { Claimed.refl v with servers := ⟨_, rfl⟩ }

theorem claimed_claimMembers {serverId : String} {users : List String} :
    ∀ {v : View}, claimMembers v serverId users = .ok v' → Claimed v v' := by
  induction users with
  | nil =>
    intro v h
    rw [claimMembers, ok_eq_ok] at h
    exact h ▸ .refl v
  | cons userId users ih =>
    intro v h
    simp only [claimMembers, bind_eq_ok, okOr_eq_ok] at h
    obtain ⟨serverMembers, hmbs, h⟩ := h
    obtain ⟨_, -, -, rfl⟩ := Staged.touchOne_eq_some hmbs
    have hfst : Claimed v { v with
        serverMembers := v.serverMembers.touch [⟨serverId, userId⟩] } :=
      { Claimed.refl v with serverMembers := ⟨_, rfl⟩ }
    exact hfst.trans (ih h)

/-- The claims of a list that seats somebody include the entitlement. -/
theorem claimed_claimForSeats {entitlement : Option ChannelEntitlement}
    {decision : SeatListWriteDecision} (h : claimForSeats v server entitlement decision = .ok v') :
    Claimed v v' ∧ ∀ plan, decision = .apply plan → plan.claimed ≠ [] →
      ∀ row, entitlement = some row → row.id ∈ v'.channelEntitlements.written := by
  cases decision with
  | unchanged list =>
    rw [claimForSeats, ok_eq_ok] at h
    exact ⟨h ▸ .refl v, fun plan heq => absurd heq (by simp)⟩
  | apply plan =>
    rw [claimForSeats] at h
    split at h
    · rename_i hnil
      rw [ok_eq_ok] at h
      refine ⟨h ▸ .refl v, fun plan' heq hne => ?_⟩
      cases heq
      exact absurd hnil hne
    · simp only [bind_eq_ok] at h
      obtain ⟨serverId, -, w, hmbs, h⟩ := h
      have hcla := claimed_claimMembers hmbs
      cases entitlement with
      | none =>
        obtain rfl := pure_eq_ok.mp h
        exact ⟨hcla, fun _ _ _ row hrow => absurd hrow (by simp)⟩
      | some entitlement =>
        simp only [bind_eq_ok, okOr_eq_ok, pure_eq_ok] at h
        obtain ⟨channelEntitlements, htouc, rfl⟩ := h
        obtain ⟨_, -, -, rfl⟩ := Staged.touchOne_eq_some htouc
        refine ⟨hcla.trans { Claimed.refl w with channelEntitlements := ⟨_, rfl⟩ }, ?_⟩
        intro _ _ _ row hrow
        cases hrow
        exact mem_append_left _ (by simp)

/-! ## Seat-list writes -/

variable {prim : Primitives} {plan : SeatListWritePlan}

theorem writeList_eq_ok {version : Option Int} (h : writeList v plan version = .ok v') :
    v' = { v with channelSeatLists := v.channelSeatLists.put plan.row.id plan.row } := by
  cases version with
  | none =>
    simp only [writeList, bind_eq_ok, okOr_eq_ok, pure_eq_ok] at h
    obtain ⟨lists, hlis, rfl⟩ := h
    obtain ⟨-, rfl⟩ := Staged.insertOne_eq_some hlis
    rfl
  | some version =>
    simp only [writeList, bind_eq_ok, okOr_eq_ok, pure_eq_ok] at h
    obtain ⟨lists, hlis, rfl⟩ := h
    obtain ⟨_, -, -, rfl⟩ := Staged.updateOne_eq_some hlis
    rfl

theorem writeGroup_eq_ok {textGroup : Option MlsGroup} (h : writeGroup v plan textGroup = .ok v') :
    ∃ groups : Staged String MlsGroup, v' = { v with mlsGroups := groups } ∧
      groups.rows = modifyGroup v.mlsGroups.rows (bindList plan) (textGroup.map (·.id)) ∧
      (∀ k ∈ v.mlsGroups.written, k ∈ groups.written) ∧
      ∀ base, v.mlsGroups.Sound base → groups.Sound base := by
  cases textGroup with
  | none =>
    rw [writeGroup, ok_eq_ok] at h
    exact ⟨v.mlsGroups, h.symm, rfl, fun _ hk => hk, fun _ hsnd => hsnd⟩
  | some group =>
    simp only [writeGroup, bind_eq_ok, okOr_eq_ok, pure_eq_ok] at h
    obtain ⟨groups, hgro, rfl⟩ := h
    obtain ⟨row, hg, -, rfl⟩ := Staged.updateOne_eq_some hgro
    refine ⟨_, rfl, ?_, fun k hk => mem_cons_of_mem _ hk, fun base hsnd => hsnd.put _ _⟩
    simp only [map_some, modifyGroup, Table.modify, hg]
    rfl

theorem flagProtected_eq_ok (h : flagProtected v channelId kind = .ok v') :
    ∃ channels : Staged String Channel, v' = { v with channels := channels } ∧
      ∀ base, v.channels.Sound base → channels.Sound base := by
  cases kind with
  | put =>
    rw [flagProtected, ok_eq_ok] at h
    exact ⟨v.channels, h.symm, fun _ hsnd => hsnd⟩
  | protect =>
    simp only [flagProtected, bind_eq_ok, okOr_eq_ok, pure_eq_ok] at h
    obtain ⟨channels, hchan, rfl⟩ := h
    obtain ⟨_, -, -, rfl⟩ := Staged.updateOne_eq_some hchan
    exact ⟨_, rfl, fun base hsnd => hsnd.put _ _⟩

/-- No change is staged in the five collections. -/
structure Untouched (s : Store) (v : View) : Prop where
  channelEntitlements : v.channelEntitlements.rows = s.channelEntitlements
  channelSeatLists : v.channelSeatLists.rows = s.channelSeatLists
  channelSeats : v.channelSeats.rows = s.channelSeats
  mlsGroups : v.mlsGroups.rows = s.mlsGroups
  mlsCommits : v.mlsCommits.rows = s.mlsCommits

theorem Claimed.untouched (h : Claimed v v') (hv : Untouched s v) : Untouched s v' := by
  obtain ⟨keys, hky⟩ := h.channelEntitlements
  refine ⟨?_, ?_, ?_, ?_, ?_⟩
  · rw [hky]
    exact hv.channelEntitlements
  · rw [h.channelSeatLists]
    exact hv.channelSeatLists
  · rw [h.channelSeats]
    exact hv.channelSeats
  · rw [h.mlsGroups]
    exact hv.mlsGroups
  · rw [h.mlsCommits]
    exact hv.mlsCommits

theorem untouched_of (s : Store) : Untouched s (View.of s) := ⟨rfl, rfl, rfl, rfl, rfl⟩

/-- An applied seat list. -/
structure ListWritten (prim : Primitives) (s : Store) (input : SeatListWriteInput)
    (plan : SeatListWritePlan) (v : View) : Prop where
  input_seats : input.seats = seatsOf s.channelSeats input.channelId
  input_entitlement : input.entitlement = s.findEntitlement input.channelId
  planned : planSeatListWrite prim input = .ok (.apply plan)
  entitlements : v.channelEntitlements.rows = s.channelEntitlements
  /-- a list that seats somebody writes the entitlement its cap was read from -/
  entitlement_written : plan.claimed ≠ [] → ∀ row, input.entitlement = some row →
    row.id ∈ v.channelEntitlements.written
  lists : v.channelSeatLists.rows = s.channelSeatLists.insert plan.row.id plan.row
  list_written : plan.row.id ∈ v.channelSeatLists.written
  seats : v.channelSeats.rows = s.channelSeats.insertAll (·.id) plan.seatRows
  groups : v.mlsGroups.rows = modifyGroup s.mlsGroups (bindList plan)
    ((s.findOpenTextGroup input.channelId).map (·.id))
  /-- the open Text group is written even when the list does not change it -/
  groups_written : ∀ k group, s.mlsGroups.get k = some group →
    isOpenTextGroupOf input.channelId group = true → k ∈ v.mlsGroups.written
  commits : v.mlsCommits.rows = s.mlsCommits

/-- **A seat-list write** answers a retry, changes nothing, or applies a plan. -/
theorem seatListWriteAttempt_eq_ok {allowClaims : Bool} {outcome : SeatListWriteOutcome}
    (h : seatListWriteAttempt prim s kind channelId submission allowClaims now = .ok (v, outcome)) :
    v.Sound s ∧ (Untouched s v ∨ ∃ plan, ListWritten prim s
      (s.seatListWriteInput kind channelId submission allowClaims now) plan v) := by
  unfold seatListWriteAttempt at h
  split at h
  · cases ok_eq_ok.mp h
    exact ⟨View.sound_of s, .inl (untouched_of s)⟩
  · simp only [writeSeatList, bind_eq_ok, orRefuse_eq_ok, pure_eq_ok, Prod.mk.injEq] at h
    obtain ⟨⟨v1, server⟩, hsrv, decision, hpl, v2, hclai, v3, happ, v4, hfl, rfl, -⟩ := h
    obtain ⟨hcla, hwr⟩ := claimed_claimForSeats hclai
    have hclaims := (claimed_claimServer hsrv).trans hcla
    have hsnd := hclaims.sound ((View.sound_of s).claimGroupsFirst (isOpenTextGroupOf channelId))
    have hsm : Untouched s v2 := hclaims.untouched ⟨rfl, rfl, rfl, rfl, rfl⟩
    obtain ⟨channels, rfl, hchan⟩ := flagProtected_eq_ok hfl
    cases decision with
    | unchanged list =>
      obtain rfl := ok_eq_ok.mp happ
      exact ⟨{ hsnd with channels := hchan _ hsnd.channels },
        .inl ⟨hsm.1, hsm.2, hsm.3, hsm.4, hsm.5⟩⟩
    | apply plan =>
      simp only [applyDecision, bind_eq_ok] at happ
      obtain ⟨w, hls, happ⟩ := happ
      obtain rfl := writeList_eq_ok hls
      obtain ⟨groups, rfl, hrw, hkp, hgro⟩ := writeGroup_eq_ok happ
      refine ⟨{ hsnd with
        channels := hchan _ hsnd.channels
        channelSeatLists := hsnd.channelSeatLists.put _ _
        channelSeats := hsnd.channelSeats.putAll _ _
        mlsGroups := hgro _ hsnd.mlsGroups }, .inr ⟨plan, ?_⟩⟩
      exact {
        input_seats := rfl
        input_entitlement := rfl
        planned := hpl
        entitlements := hsm.channelEntitlements
        entitlement_written := fun hne row hrow => hwr plan rfl hne row hrow
        lists := congrArg (·.insert plan.row.id plan.row) hsm.channelSeatLists
        list_written := mem_cons_self
        seats := congrArg (·.insertAll (·.id) plan.seatRows) hsm.channelSeats
        groups := by
          rw [hrw]
          exact congrArg (modifyGroup · (bindList plan) _) hsm.mlsGroups
        groups_written := fun k group hg hop => by
          refine hkp k ?_
          rw [hclaims.mlsGroups]
          exact mem_append_left _ (Table.mem_keysWhere.mpr ⟨group, hg, hop⟩)
        commits := hsm.mlsCommits }

/-! ## Grants -/

structure EntitlementWritten (s : Store) (now : Timestamp) (stored : ChannelEntitlement)
    (v : View) : Prop where
  room : channelSeatsUsed (seatsOf s.channelSeats stored.channelId) now ≤ stored.slotCap
  /-- the row it replaces, if any, was the channel's -/
  replaced : s.channelEntitlements.get stored.id = none ∨
    ∃ existing, s.findEntitlement stored.channelId = some existing ∧ existing.id = stored.id
  entitlements : v.channelEntitlements.rows = s.channelEntitlements.insert stored.id stored
  entitlement_written : stored.id ∈ v.channelEntitlements.written
  lists : v.channelSeatLists.rows = s.channelSeatLists
  seats : v.channelSeats.rows = s.channelSeats
  groups : v.mlsGroups.rows = s.mlsGroups
  commits : v.mlsCommits.rows = s.mlsCommits

theorem findEntitlement_channel {entitlement : ChannelEntitlement}
    (h : s.findEntitlement channelId = some entitlement) : entitlement.channelId = channelId := by
  simpa using List.find?_some h

/-- **A grant** fits the seats in use and stores one row. -/
theorem upsertEntitlementAttempt_eq_ok {entitlement stored : ChannelEntitlement}
    (h : upsertEntitlementAttempt s entitlement now = .ok (v, stored)) :
    v.Sound s ∧ EntitlementWritten s now stored v := by
  simp only [upsertEntitlementAttempt, bind_eq_ok, refuseIf_eq_ok, not_lt] at h
  obtain ⟨_, hrm, h⟩ := h
  split at h
  · rename_i existing hfn
    cases pure_eq_ok.mp h
    have hch := findEntitlement_channel hfn
    refine ⟨{ View.sound_of s with
      channelEntitlements := (Staged.sound_of s.channelEntitlements).put _ _ }, ?_⟩
    exact {
      room := by
        show channelSeatsUsed (seatsOf s.channelSeats existing.channelId) now ≤ _
        rw [hch]
        exact hrm
      replaced := .inr ⟨existing, by
        show s.findEntitlement existing.channelId = _
        rw [hch]
        exact hfn, rfl⟩
      entitlements := rfl
      entitlement_written := mem_cons_self
      lists := rfl
      seats := rfl
      groups := rfl
      commits := rfl }
  · simp only [bind_eq_ok, okOr_eq_ok, pure_eq_ok, Prod.mk.injEq] at h
    obtain ⟨entitlements, hins, rfl, rfl⟩ := h
    obtain ⟨hfr, rfl⟩ := Staged.insertOne_eq_some hins
    refine ⟨{ View.sound_of s with
      channelEntitlements := (Staged.sound_of s.channelEntitlements).put _ _ }, ?_⟩
    exact {
      room := hrm
      replaced := .inl hfr
      entitlements := rfl
      entitlement_written := mem_cons_self
      lists := rfl
      seats := rfl
      groups := rfl
      commits := rfl }

/-! ## Text groups -/

structure GroupCreated (prim : Primitives) (s : Store) (group prepared : MlsGroup)
    (list : SeatList) (v : View) : Prop where
  list_get : s.channelSeatLists.get group.channelId = some list
  is_prepared : Prepared prim group list prepared
  entitlements : v.channelEntitlements.rows = s.channelEntitlements
  lists : v.channelSeatLists.rows = s.channelSeatLists
  /-- the list the group is bound to is written -/
  list_written : list.id ∈ v.channelSeatLists.written
  seats : v.channelSeats.rows = s.channelSeats
  id_free : ∀ taken, s.mlsGroups.get prepared.id = some taken → taken.kind = .call
  group_get : v.mlsGroups.rows.get prepared.id = some prepared
  groups : ∀ k row, k ≠ prepared.id → v.mlsGroups.rows.get k = some row →
    ∃ old, s.mlsGroups.get k = some old ∧ (row = old ∨ row = supersede group old)
  commits : ∀ k document, v.mlsCommits.rows.get k = some document →
    s.mlsCommits.get k = some document

/-- What an eviction leaves: the collections around the groups as they were, fewer
groups and commits, and no Text row at the id. -/
structure Evicted (id : String) (v v' : View) : Prop where
  channelEntitlements : v'.channelEntitlements = v.channelEntitlements
  channelSeatLists : v'.channelSeatLists = v.channelSeatLists
  channelSeats : v'.channelSeats = v.channelSeats
  id_free : ∀ taken, v.mlsGroups.rows.get id = some taken → taken.kind = .call
  groups : ∀ k row, v'.mlsGroups.rows.get k = some row → v.mlsGroups.rows.get k = some row
  commits : ∀ k document, v'.mlsCommits.rows.get k = some document →
    v.mlsCommits.rows.get k = some document

theorem get_of_get_deleteOne {κ V : Type} [DecidableEq κ] {t : Staged κ V} {k k' : κ}
    {p : V → Bool} {row : V} (h : (t.deleteOne k p).rows.get k' = some row) :
    t.rows.get k' = some row := by
  unfold Staged.deleteOne at h
  split at h
  · rw [get_erase] at h
    split at h
    · cases h
    · exact h
  · exact h

theorem evictCallSquat_eq_ok {evictable : Bool} {id : String}
    (h : evictCallSquat v evictable id = .ok v') (hv : v.Sound s) :
    v'.Sound s ∧ Evicted id v v' := by
  unfold evictCallSquat at h
  split at h
  · rename_i hfr
    obtain rfl := ok_eq_ok.mp h
    refine ⟨hv, rfl, rfl, rfl, fun taken htak => ?_, fun _ _ hk => hk, fun _ _ hk => hk⟩
    rw [hfr] at htak
    cases htak
  · rename_i hrow
    split at h
    · rename_i hca
      obtain rfl := ok_eq_ok.mp h
      refine ⟨{ hv with
        mlsGroups := hv.mlsGroups.deleteOne _ _
        mlsCommits := hv.mlsCommits.deleteWhere _
        mlsJoinIntents := hv.mlsJoinIntents.deleteWhere _
        e2eeQueue := hv.e2eeQueue.deleteWhere _ }, rfl, rfl, rfl, fun taken htak => ?_,
        fun _ _ hk => get_of_get_deleteOne hk, fun _ _ hk => (get_retain_eq_some.mp hk).1⟩
      rw [hrow] at htak
      rw [← some.inj htak]
      exact hca.2
    · cases h

theorem closeSuperseded_eq (v : View) (group : MlsGroup) (supersedes : Option String) :
    ∃ groups : Staged String MlsGroup,
      closeSuperseded v group supersedes = { v with mlsGroups := groups } ∧
      (∀ base, v.mlsGroups.Sound base → groups.Sound base) ∧
      ∀ k row, groups.rows.get k = some row → ∃ old, v.mlsGroups.rows.get k = some old ∧
        (row = old ∨ row = supersede group old) := by
  cases supersedes with
  | none => exact ⟨v.mlsGroups, rfl, fun _ hsnd => hsnd, fun k row hk => ⟨row, hk, .inl rfl⟩⟩
  | some supersededId =>
    refine ⟨_, rfl, fun base hsnd => hsnd.updateWhere _ _, fun k row hk => ?_⟩
    rw [Staged.updateWhere, get_mapValues, map_eq_some_iff] at hk
    obtain ⟨old, hold, rfl⟩ := hk
    refine ⟨old, hold, ?_⟩
    split
    · exact .inr rfl
    · exact .inl rfl

/-- **A Text create** is a conflict, or binds a group to the list it read. -/
theorem createTextGroupAttempt_eq_ok {group : MlsGroup} {supersedes : Option String}
    {outcome : MlsGroupCreateOutcome}
    (h : createTextGroupAttempt prim s group supersedes = .ok (v, outcome)) :
    v.Sound s ∧ (Untouched s v ∨ ∃ prepared list, GroupCreated prim s group prepared list v) := by
  simp only [createTextGroupAttempt, bind_eq_ok, okOr_eq_ok, orRefuse_eq_ok] at h
  obtain ⟨list, hls, conflict, -, h⟩ := h
  have hsnd := (View.sound_of s).claimGroupsFirst (claimsOfCreate prim group supersedes)
  split at h
  · cases pure_eq_ok.mp h
    exact ⟨hsnd, .inl ⟨rfl, rfl, rfl, rfl, rfl⟩⟩
  · simp only [bind_eq_ok, okOr_eq_ok, orRefuse_eq_ok, pure_eq_ok, Prod.mk.injEq] at h
    obtain ⟨prepared, hprep, lists, htouc, v1, hevic, groups, hins, rfl, -⟩ := h
    obtain ⟨_, -, -, rfl⟩ := Staged.touchOne_eq_some htouc
    obtain ⟨hsnd1, hevi⟩ := evictCallSquat_eq_ok hevic
      { hsnd with channelSeatLists := hsnd.channelSeatLists.touch [list.id] }
    obtain ⟨closed, hcl, hclosedSound, hrw⟩ := closeSuperseded_eq v1 group supersedes
    rw [hcl] at hins ⊢
    obtain ⟨-, rfl⟩ := Staged.insertOne_eq_some hins
    refine ⟨{ hsnd1 with mlsGroups := (hclosedSound _ hsnd1.mlsGroups).put _ _ },
      .inr ⟨prepared, list, ?_⟩⟩
    exact {
      list_get := hls
      is_prepared := prepared_of_prepareTextGroup hprep
      entitlements := congrArg Staged.rows hevi.channelEntitlements
      lists := congrArg Staged.rows hevi.channelSeatLists
      list_written := by
        rw [hevi.channelSeatLists]
        exact mem_append_left _ (by simp)
      seats := congrArg Staged.rows hevi.channelSeats
      id_free := hevi.id_free
      group_get := by
        show (closed.rows.insert prepared.id prepared).get prepared.id = some prepared
        rw [get_insert_self]
      groups := by
        intro k row hne hg
        have hclosedRow : closed.rows.get k = some row := by
          have hput : (closed.rows.insert prepared.id prepared).get k = some row := hg
          rw [get_insert, if_neg hne] at hput
          exact hput
        obtain ⟨old, hold, hrow⟩ := hrw k row hclosedRow
        exact ⟨old, hevi.groups k old hold, hrow⟩
      commits := fun k document hg => hevi.commits k document hg }

/-! ## Releases and deletion -/

structure SeatsReleased (s : Store) (v : View) : Prop where
  entitlements : v.channelEntitlements.rows = s.channelEntitlements
  lists : v.channelSeatLists.rows = s.channelSeatLists
  seats : ∀ k, v.channelSeats.rows.get k = s.channelSeats.get k ∨
    ∃ seat now cooldownUntil, s.channelSeats.get k = some seat ∧ seat.isActive = true ∧
      v.channelSeats.rows.get k = some (releasedSeat now cooldownUntil seat)
  groups : ∀ k row, v.mlsGroups.rows.get k = some row → ∃ old, s.mlsGroups.get k = some old ∧
    (row = old ∨ ∃ userId now, row = pushPending userId now old)
  commits : v.mlsCommits.rows = s.mlsCommits

/-- **A release** frees active seats and leaves pending removals. -/
theorem releaseAttempt_eq_ok {userId : String} {serverId : Option String} {channels : List String}
    (h : releaseAttempt s userId serverId now = .ok (v, channels)) :
    v.Sound s ∧ SeatsReleased s v := by
  simp only [releaseAttempt, bind_eq_ok, pure_eq_ok, Prod.mk.injEq] at h
  obtain ⟨cooldownUntil, -, rfl, -⟩ := h
  have hsnd := (View.sound_of s).claimGroupsFirst (s.hasMemberGroup userId serverId)
  refine ⟨{ hsnd with
    channelSeats := hsnd.channelSeats.updateWhere _ _
    mlsGroups := hsnd.mlsGroups.updateWhere _ _ }, rfl, rfl, fun k => ?_, fun k row hk => ?_, rfl⟩
  · have hrow : ((s.channelSeats.mapValues fun seat => if s.releasesSeat userId serverId seat then
        releasedSeat now cooldownUntil seat else seat).get k) =
        (s.channelSeats.get k).map fun seat => if s.releasesSeat userId serverId seat then
          releasedSeat now cooldownUntil seat else seat := get_mapValues _ _ _
    cases hg : s.channelSeats.get k with
    | none => exact .inl (hrow.trans (by rw [hg, map_none]))
    | some seat =>
      rw [hg, map_some] at hrow
      by_cases hrel : s.releasesSeat userId serverId seat = true
      · rw [if_pos hrel] at hrow
        rw [Store.releasesSeat, and_eq_true, and_eq_true] at hrel
        exact .inr ⟨seat, now, cooldownUntil, rfl, hrel.1.2, hrow⟩
      · rw [if_neg hrel] at hrow
        exact .inl hrow
  · have hrow : (s.mlsGroups.mapValues fun group => if s.pendsRemoval userId serverId group then
        pushPending userId now group else group).get k = some row := hk
    rw [get_mapValues, map_eq_some_iff] at hrow
    obtain ⟨old, hold, rfl⟩ := hrow
    refine ⟨old, hold, ?_⟩
    split
    · exact .inr ⟨userId, now, rfl⟩
    · exact .inl rfl

structure ChannelDeleted (s : Store) (channelId : String) (v : View) : Prop where
  entitlements : v.channelEntitlements.rows =
    s.channelEntitlements.retain fun _ entitlement => !(entitlement.channelId == channelId)
  lists : ∀ k, v.channelSeatLists.rows.get k =
    if k = channelId then none else s.channelSeatLists.get k
  seats : v.channelSeats.rows = s.channelSeats.retain fun _ seat => !(seat.channelId == channelId)
  groups : v.mlsGroups.rows = s.mlsGroups.retain fun _ group => !isTextGroupOf channelId group
  commits : ∀ k document, v.mlsCommits.rows.get k = some document →
    s.mlsCommits.get k = some document

theorem get_deleteOne {κ V : Type} [DecidableEq κ] (t : Staged κ V) (k k' : κ) :
    (t.deleteOne k fun _ => true).rows.get k' = if k' = k then none else t.rows.get k' := by
  unfold Staged.deleteOne
  cases hg : t.rows.get k with
  | none =>
    rw [if_neg (by simp)]
    by_cases hk : k' = k
    · rw [if_pos hk, hk, hg]
    · rw [if_neg hk]
  | some row => exact get_erase _ _ _

theorem channelDeleted_deleteAttempt (s : Store) (channelId : String) :
    (deleteAttempt s channelId).Sound s ∧ ChannelDeleted s channelId (deleteAttempt s channelId) := by
  have hsnd := (View.sound_of s).claimGroupsFirst (isTextGroupOf channelId)
  refine ⟨{ hsnd with
    channelEntitlements := hsnd.channelEntitlements.deleteWhere _
    channelSeats := hsnd.channelSeats.deleteWhere _
    channelSeatLists := hsnd.channelSeatLists.deleteOne _ _
    mlsGroups := hsnd.mlsGroups.deleteWhere _
    mlsCommits := hsnd.mlsCommits.deleteWhere _
    mlsJoinIntents := hsnd.mlsJoinIntents.deleteWhere _ }, ?_⟩
  exact {
    entitlements := rfl
    lists := fun k => get_deleteOne (.of s.channelSeatLists) channelId k
    seats := rfl
    groups := rfl
    commits := fun k document hg => (get_retain_eq_some.mp hg).1 }

/-! ## Text commits -/

/-- A Text commit that won its epoch. -/
structure CommitWritten (s : Store) (commit : MlsCommit) (group : MlsGroup) (list : SeatList)
    (signed : SeatListBody) (plan : MlsTextCommitPlan) (v : View) : Prop where
  group_get : s.mlsGroups.get group.id = some group
  list_get : s.channelSeatLists.get group.channelId = some list
  accepted : ∃ adSha256 storedIntents revokedIdentities activeSeatUsers,
    TextCommitAccepted group commit adSha256 list signed storedIntents revokedIdentities
      activeSeatUsers plan
  entitlements : v.channelEntitlements.rows = s.channelEntitlements
  lists : v.channelSeatLists.rows = s.channelSeatLists
  seats : v.channelSeats.rows = s.channelSeats
  /-- the active seat of every added user is written -/
  seats_written : ∀ device ∈ commit.added, ActiveAt s.channelSeats group.channelId device.userId ∧
    ChannelSeat.compositeId group.channelId device.userId ∈ v.channelSeats.written
  groups : v.mlsGroups.rows = s.mlsGroups.insert group.id (applyTextCommit group commit plan)
  group_written : group.id ∈ v.mlsGroups.written
  commits : ∀ k document, v.mlsCommits.rows.get k = some document →
    s.mlsCommits.get k = some document ∨
      (k = MlsCommit.compositeId commit.groupId commit.epoch ∧ document = ⟨plan.stored, some .text⟩)

theorem claimSeats_spec {added : List MlsMemberDevice} :
    ∀ {v v' : View} {users : List String}, claimSeats v channelId added = (v', users) →
      ∃ keys, v' = { v with channelSeats := v.channelSeats.touch keys } ∧
        ∀ user ∈ users, ActiveAt v.channelSeats.rows channelId user ∧
          ChannelSeat.compositeId channelId user ∈ keys := by
  induction added with
  | nil =>
    intro v v' users h
    obtain ⟨rfl, rfl⟩ := h
    exact ⟨[], rfl, fun user hmem => absurd hmem (by simp)⟩
  | cons device added ih =>
    intro v v' users h
    rw [claimSeats] at h
    split at h
    · rename_i htouc
      obtain ⟨seat, hst, hacti, rfl⟩ := Staged.touchOne_eq_some htouc
      generalize hrs : claimSeats _ channelId added = rest at h
      obtain ⟨w, others⟩ := rest
      cases h
      obtain ⟨keys, rfl, hoths⟩ := ih hrs
      refine ⟨keys ++ [ChannelSeat.compositeId channelId device.userId], ?_, fun user hmem => ?_⟩
      · rw [← Staged.touch_touch]
      · rcases mem_cons.mp hmem with rfl | hmem
        · exact ⟨⟨seat, hst, hacti⟩, mem_append_right _ (by simp)⟩
        · obtain ⟨hact, hkey⟩ := hoths user hmem
          exact ⟨hact, mem_append_left _ hkey⟩
    · exact ih h

theorem writeTextCommit_eq_ok {id : String} {stored : MlsCommit} (hid : stored.id = id)
    (h : writeTextCommit v id stored = .ok v') :
    ∃ commits : Staged String StoredCommit, v' = { v with mlsCommits := commits } ∧
      (∀ base, v.mlsCommits.Sound base → commits.Sound base) ∧
      ∀ k document, commits.rows.get k = some document → v.mlsCommits.rows.get k = some document ∨
          (k = id ∧ document = ⟨stored, some .text⟩) := by
  subst hid
  simp only [writeTextCommit, bind_eq_ok, okOr_eq_ok, pure_eq_ok] at h
  obtain ⟨inserted, hins, commits, hmr, rfl⟩ := h
  obtain ⟨-, rfl⟩ := Staged.insertOne_eq_some hins
  obtain ⟨row, hrow, -, rfl⟩ := Staged.updateOne_eq_some hmr
  rw [Staged.put, get_insert_self, some.injEq] at hrow
  subst hrow
  refine ⟨_, rfl, fun base hsnd => ((hsnd.deleteOne _ _).put _ _).put _ _, fun k document hg => ?_⟩
  simp only [Staged.put, get_insert] at hg
  by_cases hk : k = stored.id
  · rw [if_pos hk, some.injEq] at hg
    exact .inr ⟨hk, hg.symm⟩
  · rw [if_neg hk, if_neg hk] at hg
    exact .inl (get_of_get_deleteOne hg)

/-- **A Text commit** is lost to a stored row, or advances the group it was planned on. -/
theorem textCommitAttempt_eq_ok {commit : MlsCommit} {adSha256 : String}
    {entitlementDeviceCap : Nat} {outcome : MlsCommitOutcome}
    (h : textCommitAttempt s commit adSha256 entitlementDeviceCap = .ok (v, outcome)) :
    v.Sound s ∧ (Untouched s v ∨
      ∃ group list signed plan, CommitWritten s commit group list signed plan v) := by
  unfold textCommitAttempt at h
  dsimp only at h
  split at h
  · cases ok_eq_ok.mp h
    exact ⟨View.sound_of s, .inl (untouched_of s)⟩
  · simp only [bind_eq_ok, okOr_eq_ok, orRefuse_eq_ok, pure_eq_ok, Prod.mk.injEq] at h
    obtain ⟨group, hgr, plan, hpl, v1, hcom, v2, hadv, rfl, -⟩ := h
    cases hclai : claimSeats (View.of s) group.channelId commit.added with
    | mk claimed users =>
      rw [hclai] at hpl hcom
      obtain ⟨keys, rfl, hcla⟩ := claimSeats_spec hclai
      obtain ⟨list, signed, hls, hacc⟩ := planMlsTextCommit_spec hpl
      have hsto : plan.stored.id = MlsCommit.compositeId commit.groupId commit.epoch := by
        rw [hacc.stored_eq]
      obtain ⟨commits, rfl, hcommitsSound, hcomm⟩ := writeTextCommit_eq_ok hsto hcom
      simp only [advanceTextGroup, bind_eq_ok, okOr_eq_ok, pure_eq_ok] at hadv
      obtain ⟨groups, hupd, rfl⟩ := hadv
      obtain ⟨row, hrow, -, rfl⟩ := Staged.updateOne_eq_some hupd
      rw [hacc.group_id] at hgr
      obtain rfl : row = group := some.inj (hrow.symm.trans hgr)
      have hsnd := View.sound_of s
      refine ⟨{ hsnd with
        channelSeats := hsnd.channelSeats.touch keys
        mlsCommits := hcommitsSound _ hsnd.mlsCommits
        mlsGroups := hsnd.mlsGroups.put _ _
        mlsJoinIntents := hsnd.mlsJoinIntents.deleteWhere _ },
        .inr ⟨row, list, signed, plan, ?_⟩⟩
      exact {
        group_get := hgr
        list_get := hls
        accepted := ⟨_, _, _, _, hacc⟩
        entitlements := rfl
        lists := rfl
        seats := rfl
        seats_written := fun device hmem => by
          obtain ⟨hact, hkey⟩ := hcla device.userId (hacc.adds device hmem).2.1
          exact ⟨hact, mem_append_left _ hkey⟩
        groups := rfl
        group_written := mem_cons_self
        commits := hcomm }

/-! ## All attempts -/

/-- What an attempt stages in the five collections. -/
inductive Effect (prim : Primitives) (s : Store) (now? : Option Timestamp) (v : View) : Prop where
  | same : Untouched s v → Effect prim s now? v
  | granted {now : Timestamp} {stored : ChannelEntitlement} :
      now? = some now → EntitlementWritten s now stored v → Effect prim s now? v
  | listed {input : SeatListWriteInput} {plan : SeatListWritePlan} :
      now? = some input.now → ListWritten prim s input plan v → Effect prim s now? v
  | created {group prepared : MlsGroup} {list : SeatList} :
      GroupCreated prim s group prepared list v → Effect prim s now? v
  | released : SeatsReleased s v → Effect prim s now? v
  | deleted {channelId : String} : ChannelDeleted s channelId v → Effect prim s now? v
  | committed {commit : MlsCommit} {group : MlsGroup} {list : SeatList} {signed : SeatListBody}
      {plan : MlsTextCommitPlan} :
      CommitWritten s commit group list signed plan v → Effect prim s now? v

theorem map_view_eq_ok {α : Type} {wrap : α → Response} {r : Attempt (View × α)}
    (h : (Prod.map id wrap) <$> r = .ok (v, answer)) : ∃ a, r = .ok (v, a) := by
  obtain ⟨⟨w, a⟩, hr, heq⟩ := map_eq_ok.mp h
  cases heq
  exact ⟨a, hr⟩

/-- **What an attempt stages.** -/
theorem effect_of_attempt {request : Request} (h : attemptView prim request s = .ok (v, answer)) :
    v.Sound s ∧ Effect prim s request.now? v := by
  cases request with
  | upsertEntitlement entitlement now =>
    obtain ⟨stored, hr⟩ := map_view_eq_ok h
    obtain ⟨hsnd, hwr⟩ := upsertEntitlementAttempt_eq_ok hr
    exact ⟨hsnd, .granted rfl hwr⟩
  | createText group supersedes =>
    obtain ⟨outcome, hr⟩ := map_view_eq_ok h
    obtain ⟨hsnd, hsm | ⟨prepared, list, hcreat⟩⟩ := createTextGroupAttempt_eq_ok hr
    · exact ⟨hsnd, .same hsm⟩
    · exact ⟨hsnd, .created hcreat⟩
  | release userId serverId now =>
    obtain ⟨channels, hr⟩ := map_view_eq_ok h
    obtain ⟨hsnd, hrele⟩ := releaseAttempt_eq_ok hr
    exact ⟨hsnd, .released hrele⟩
  | delete channelId =>
    cases ok_eq_ok.mp h
    obtain ⟨hsnd, hdel⟩ := channelDeleted_deleteAttempt s channelId
    exact ⟨hsnd, .deleted hdel⟩
  | textCommit commit adSha256 entitlementDeviceCap =>
    obtain ⟨outcome, hr⟩ := map_view_eq_ok h
    obtain ⟨hsnd, hsm | ⟨group, list, signed, plan, hwr⟩⟩ := textCommitAttempt_eq_ok hr
    · exact ⟨hsnd, .same hsm⟩
    · exact ⟨hsnd, .committed hwr⟩
  | _ =>
    obtain ⟨outcome, hr⟩ := map_view_eq_ok h
    obtain ⟨hsnd, hsm | ⟨plan, hwr⟩⟩ := seatListWriteAttempt_eq_ok hr
    · exact ⟨hsnd, .same hsm⟩
    · exact ⟨hsnd, .listed rfl hwr⟩

end Txn
end SlogaBackend.Mls
