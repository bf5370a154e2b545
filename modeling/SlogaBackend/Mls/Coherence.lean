import SlogaBackend.Mls.GroupSteps

/-!
# The coherence of the store

`Coherent` is the invariant every other result stands on. Rows sit under their own
ids; a stored list parses, names its own channel and has a commit AD; a channel has
at most one entitlement and, for each kind, at most one open group; and an open Text
group carries the hash of the list stored for its channel.

No guard is needed: `coherent_step` holds for every operation with every argument.

## The open Text groups

`OpenTextStep` is the view of a step from one open Text group of the next store,
together with the list and the seats of its channel. There are five cases: the
group was there and nothing around it moved, a list was applied to its channel, it
was created, a user's seats were released, or a Text commit was accepted. What the
later modules prove about protected channels goes by these five.
-/

namespace SlogaBackend.Mls

open Checks ReferenceDb

variable {prim : Primitives} {db next : ReferenceDb} {op : Op}

/-! ## The invariant -/

structure ListStored (prim : Primitives) (channelId : String) (list : SeatList) : Prop where
  id_eq : list.id = channelId
  parsed : ∃ body, SeatListBody.parse list.body = .ok body ∧ body.channelId = channelId ∧
    body.signerUserId = list.signerUserId ∧ body.signerDeviceId = list.signerDeviceId
  hashed : ∃ sha256, list.commitAdSha256 prim = .ok sha256

/-- The group carries the hash of its channel's stored list. -/
def Bound (prim : Primitives) (db : ReferenceDb) (group : MlsGroup) : Prop :=
  ∃ list sha256, db.channelSeatLists.get group.channelId = some list ∧
    list.commitAdSha256 prim = .ok sha256 ∧ group.seatListAdSha256 = some sha256

/-- The invariant of the store. -/
structure Coherent (prim : Primitives) (db : ReferenceDb) : Prop where
  groups_keyed : GroupsKeyed db
  seats : SeatsCoherent db.channelSeats
  lists : ∀ c list, db.channelSeatLists.get c = some list → ListStored prim c list
  entitlements_keyed : ∀ k e, db.channelEntitlements.get k = some e → e.id = k
  entitlement_unique : ∀ k₁ k₂ e₁ e₂, db.channelEntitlements.get k₁ = some e₁ →
    db.channelEntitlements.get k₂ = some e₂ → e₁.channelId = e₂.channelId → k₁ = k₂
  open_unique : ∀ k₁ k₂ g₁ g₂, db.mlsGroups.get k₁ = some g₁ → db.mlsGroups.get k₂ = some g₂ →
    g₁.open_ = true → g₂.open_ = true → g₁.channelId = g₂.channelId → g₁.kind = g₂.kind →
    k₁ = k₂
  bound : ∀ k g, db.mlsGroups.get k = some g → g.open_ = true → g.kind = .text → Bound prim db g

variable {c k u : String} {list : SeatList} {g' prepared g : MlsGroup}

theorem ListStored.channel_ulid (h : ListStored prim c list) : isValidUlidId c = true := by
  obtain ⟨body, hprs, hcha, -⟩ := h.parsed
  exact hcha ▸ (SeatListBody.valid_of_parse hprs).channel_ulid

theorem coherent_empty (prim : Primitives) : Coherent prim .empty where
  groups_keyed := fun k g h => absurd h (by simp [ReferenceDb.empty])
  seats := fun k seat h => absurd h (by simp [ReferenceDb.empty])
  lists := fun c list h => absurd h (by simp [ReferenceDb.empty])
  entitlements_keyed := fun k e h => absurd h (by simp [ReferenceDb.empty])
  entitlement_unique := fun k1 k2 e1 e2 h => absurd h (by simp [ReferenceDb.empty])
  open_unique := fun k1 k2 g1 g2 h => absurd h (by simp [ReferenceDb.empty])
  bound := fun k g h => absurd h (by simp [ReferenceDb.empty])

namespace Coherent

section

variable (hc : Coherent prim db) {k : String} {g : MlsGroup} (hget : db.mlsGroups.get k = some g)
  (hon : g.open_ = true) (htx : g.kind = .text)
include hc hget hon htx

theorem openText_ulid : isValidUlidId g.channelId = true := by
  obtain ⟨list, sha256, hls, -, -⟩ := hc.bound k g hget hon htx
  exact (hc.lists _ _ hls).channel_ulid

/-- **The search for a channel's open Text group finds the one there is.** -/
theorem openTextGroup_of_get : db.openTextGroup g.channelId = some g := by
  unfold openTextGroup
  rw [Table.find?_values_eq_some_iff]
  · exact ⟨mem_values_of_get hget, isOpenTextGroupOf_iff.mpr ⟨rfl, hon, htx⟩⟩
  · intro v hv w hw hpv hpw
    obtain ⟨hvc, hvo, hvk⟩ := isOpenTextGroupOf_iff.mp hpv
    obtain ⟨hwc, hwo, hwk⟩ := isOpenTextGroupOf_iff.mp hpw
    have hgv := hc.groups_keyed.get_of_mem hv
    have hgw := hc.groups_keyed.get_of_mem hw
    have hid : v.id = w.id := hc.open_unique _ _ _ _ hgv hgw hvo hwo (hvc.trans hwc.symm)
      (hvk.trans hwk.symm)
    rw [hid, hgw] at hgv
    exact (some.inj hgv).symm

end

theorem fetchChannelEntitlement_iff (hc : Coherent prim db) {c : String} {e : ChannelEntitlement} :
    db.fetchChannelEntitlement c = some e ↔
      db.channelEntitlements.get e.id = some e ∧ e.channelId = c := by
  unfold fetchChannelEntitlement
  rw [Table.find?_values_eq_some_iff]
  · rw [beq_iff_eq, mem_values]
    constructor
    · rintro ⟨⟨k, hk⟩, hch⟩
      rw [hc.entitlements_keyed k e hk]
      exact ⟨hk, hch⟩
    · rintro ⟨hk, hch⟩
      exact ⟨⟨_, hk⟩, hch⟩
  · intro v hv w hw hpv hpw
    rw [beq_iff_eq] at hpv hpw
    obtain ⟨kv, hkv⟩ := mem_values.mp hv
    obtain ⟨kw, hkw⟩ := mem_values.mp hw
    have hkk := hc.entitlement_unique _ _ _ _ hkv hkw (hpv.trans hpw.symm)
    rw [hkk, hkw] at hkv
    exact (some.inj hkv).symm

theorem appliedPlan (hc : Coherent prim db) {input : SeatListWriteInput}
    {plan : SeatListWritePlan} (hop : op.seatListInput db = some input)
    (hpl : planSeatListWrite prim input = .ok (.apply plan)) :
    ∃ body, AppliedPlan prim input db.channelSeats body plan :=
  planSeatListWrite_apply hc.seats (readsChannel_of_seatListInput hop).seats_eq hpl

end Coherent

/-! ## Seats, lists and entitlements -/

theorem seatsCoherent_step (h : Step prim db op next) (hc : Coherent prim db) :
    SeatsCoherent next.channelSeats := by
  cases h with
  | same | environment | grant | createCall | close | callCommit | textCommit | intent | sweep
  | prune => exact hc.seats
  | listWrite hop hpl =>
    obtain ⟨body, happ⟩ := hc.appliedPlan hop hpl
    exact happ.seatsCoherent hc.seats
  | @createText group prepared supersedes list squat hcre =>
    cases squat <;> exact hc.seats
  | @release userId serverId now cooldownUntil hco =>
    intro k seat hget
    rw [get_mapValues, map_eq_some_iff] at hget
    obtain ⟨old, hold, rfl⟩ := hget
    split
    · exact hc.seats k old hold
    · exact hc.seats k old hold
  | delete channelId =>
    intro k seat hget
    exact hc.seats k seat (get_retain_eq_some.mp hget).1

theorem listsStored_step (h : Step prim db op next) (hc : Coherent prim db) :
    ∀ c list, next.channelSeatLists.get c = some list → ListStored prim c list := by
  cases h with
  | same | environment | grant | release | createCall | close | callCommit | textCommit | intent
  | sweep | prune => exact hc.lists
  | @listWrite _ input plan channels hop hpl =>
    intro c list hget
    obtain ⟨body, happ⟩ := hc.appliedPlan hop hpl
    have hget' : (db.channelSeatLists.insert plan.row.id plan.row).get c = some list := hget
    rw [get_insert] at hget'
    by_cases hch : c = plan.row.id
    · rw [if_pos hch] at hget'
      cases hget'
      refine ⟨hch.symm, ⟨body, ?_, ?_, ?_, ?_⟩, ⟨_, happ.hash_eq⟩⟩
      · rw [happ.row_body]
        exact happ.parsed
      · rw [hch, happ.row_id]
        exact happ.channel_eq
      · exact happ.row_signer_user.symm
      · exact happ.row_signer_device.symm
    · rw [if_neg hch] at hget'
      exact hc.lists c list hget'
  | @createText group prepared supersedes list squat hcre =>
    cases squat <;> exact hc.lists
  | delete channelId =>
    intro c list hget
    have hget' : (db.channelSeatLists.erase channelId).get c = some list := hget
    rw [get_erase] at hget'
    split at hget'
    · cases hget'
    · exact hc.lists c list hget'

theorem Step.entitlements (h : Step prim db op next) :
    next.channelEntitlements = db.channelEntitlements ∨
      (∃ entitlement now stored, op = .upsertChannelEntitlement entitlement now ∧
        channelSeatsUsed (seatsOf db.channelSeats entitlement.channelId) now ≤ entitlement.slotCap ∧
        stored = storedEntitlement entitlement (db.fetchChannelEntitlement entitlement.channelId) ∧
        next = { db with
          channelEntitlements := db.channelEntitlements.insert stored.id stored }) ∨
      ∃ channelId, op = .deleteProtectedChannelData channelId ∧
        next.channelEntitlements = db.channelEntitlements.retain fun _ entitlement =>
          entitlement.channelId != channelId := by
  cases h with
  | same | environment | release | createCall | close | callCommit | textCommit | intent | sweep
  | prune | listWrite => exact .inl rfl
  | @createText group prepared supersedes list squat hcre =>
    cases squat <;> exact .inl rfl
  | @grant entitlement stored now hus hsto =>
    exact .inr (.inl ⟨entitlement, now, stored, rfl, hus, hsto, rfl⟩)
  | delete channelId => exact .inr (.inr ⟨channelId, rfl, rfl⟩)

/-- A grant stores a row of the granted channel, under the id of the row it replaces if
there was one. -/
theorem storedEntitlement_spec (hc : Coherent prim db) (entitlement : ChannelEntitlement) :
    (storedEntitlement entitlement
        (db.fetchChannelEntitlement entitlement.channelId)).channelId = entitlement.channelId ∧
      (storedEntitlement entitlement
        (db.fetchChannelEntitlement entitlement.channelId)).slotCap = entitlement.slotCap ∧
      ∀ k e, db.channelEntitlements.get k = some e → e.channelId = entitlement.channelId →
        k = (storedEntitlement entitlement
          (db.fetchChannelEntitlement entitlement.channelId)).id := by
  cases hf : db.fetchChannelEntitlement entitlement.channelId with
  | none =>
    refine ⟨rfl, rfl, fun k e hk hch => ?_⟩
    have hkid := hc.entitlements_keyed k e hk
    have hsm := hc.fetchChannelEntitlement_iff.mpr ⟨by rw [hkid]; exact hk, hch⟩
    rw [hf] at hsm
    cases hsm
  | some existing =>
    obtain ⟨hget, hch⟩ := hc.fetchChannelEntitlement_iff.mp hf
    refine ⟨hch, rfl, fun k e hk hech => ?_⟩
    exact hc.entitlement_unique k existing.id e existing hk hget (hech.trans hch.symm)

theorem entitlementsKeyed_step (h : Step prim db op next) (hc : Coherent prim db) :
    ∀ k e, next.channelEntitlements.get k = some e → e.id = k := by
  intro k e hget
  rcases h.entitlements with heq | ⟨entitlement, now, stored, -, -, -, rfl⟩ | ⟨channelId, -, heq⟩
  · exact hc.entitlements_keyed k e (heq ▸ hget)
  · dsimp only at hget
    rw [get_insert] at hget
    split at hget
    · rename_i hk
      rw [← some.inj hget, hk]
    · exact hc.entitlements_keyed k e hget
  · rw [heq] at hget
    exact hc.entitlements_keyed k e (get_retain_eq_some.mp hget).1

theorem entitlementUnique_step (h : Step prim db op next) (hc : Coherent prim db) :
    ∀ k1 k2 e1 e2, next.channelEntitlements.get k1 = some e1 →
      next.channelEntitlements.get k2 = some e2 → e1.channelId = e2.channelId → k1 = k2 := by
  intro k1 k2 e1 e2 h1 h2 hch
  rcases h.entitlements with heq | ⟨entitlement, now, stored, -, -, hsto, rfl⟩ | ⟨channelId, -, heq⟩
  · rw [heq] at h1 h2
    exact hc.entitlement_unique k1 k2 e1 e2 h1 h2 hch
  · obtain ⟨hsch, -, hold⟩ := storedEntitlement_spec hc entitlement
    rw [← hsto] at hsch hold
    rw [get_insert] at h1 h2
    by_cases hk1 : k1 = stored.id
    · by_cases hk2 : k2 = stored.id
      · exact hk1.trans hk2.symm
      · rw [if_pos hk1] at h1
        rw [if_neg hk2] at h2
        rw [← some.inj h1, hsch] at hch
        exact absurd (hold k2 e2 h2 hch.symm) hk2
    · rw [if_neg hk1] at h1
      by_cases hk2 : k2 = stored.id
      · rw [if_pos hk2] at h2
        rw [← some.inj h2, hsch] at hch
        exact absurd (hold k1 e1 h1 hch) hk1
      · rw [if_neg hk2] at h2
        exact hc.entitlement_unique k1 k2 e1 e2 h1 h2 hch
  · rw [heq] at h1 h2
    exact hc.entitlement_unique k1 k2 e1 e2 (get_retain_eq_some.mp h1).1
      (get_retain_eq_some.mp h2).1 hch

/-! ## Open slots -/

variable {row : Option MlsGroup} {supersedes : Option String} {squat : Bool}

theorem GroupStep.open_before (h : GroupStep prim db op k row) (hrow : row = some g')
    (hon : g'.open_ = true) :
    (∃ g, db.mlsGroups.get k = some g ∧ g.open_ = true ∧ g.channelId = g'.channelId ∧
      g.kind = g'.kind) ∨
    (∃ group supersedes list squat, op = .createTextMlsGroup group supersedes ∧ k = g'.id ∧
      TextCreate prim db group supersedes list g' squat) ∨
    (∃ supersedes closed, op = .createMlsGroup g' supersedes ∧ k = g'.id ∧
      CallCreate db g' closed) := by
  cases h with
  | same => exact .inl ⟨g', hrow, hon, rfl, rfl⟩
  | @bound _ input plan group _ _ _ hget | @pended userId _ serverId now group hget _
  | @callCommitted commit group hget _ _ _
  | @textCommitted commit adSha256 cap group list signed plan hget _ _ =>
    cases hrow
    exact .inl ⟨group, hget, hon, rfl, rfl⟩
  | superseded hget _ =>
    cases hrow
    exact absurd hon (by simp [supersede])
  | createdText hcre =>
    cases hrow
    exact .inr (.inl ⟨_, _, _, _, rfl, rfl, hcre⟩)
  | createdCall hcre =>
    cases hrow
    exact .inr (.inr ⟨_, _, rfl, rfl, hcre⟩)
  | closed _ _ =>
    cases hrow
    cases hon
  | _ => cases hrow

variable {group : MlsGroup}

theorem createText_only_open (hc : Coherent prim db)
    (hcre : TextCreate prim db group supersedes list prepared squat)
    (hget : ((if squat then db.evictSquat prepared.id else db).insertTextGroup group prepared
      supersedes).mlsGroups.get k = some g) (hon : g.open_ = true) (htx : g.kind = .text)
    (hch : g.channelId = group.channelId) : k = prepared.id := by
  by_contra hk
  unfold insertTextGroup at hget
  rw [get_insert, if_neg hk] at hget
  have hclear : (if squat then db.evictSquat prepared.id else db).mlsGroups.get k =
      db.mlsGroups.get k := get_evictSquat_of_ne hk squat
  rcases get_closeSuperseded with ⟨heq, hcl⟩ | ⟨old, -, -, heq⟩
  · rw [heq, hclear] at hget
    have hfnd := hc.openTextGroup_of_get hget hon htx
    rw [hch] at hfnd
    have hsup : supersedes = some k := by rw [hcre.only_open g hfnd, hc.groups_keyed k g hget]
    have hfal := hcl hsup g (hclear.trans hget)
    rw [hon] at hfal
    cases hfal
  · rw [heq] at hget
    rw [← some.inj hget] at hon
    exact absurd hon (by simp [supersede])

theorem createCall_only_open (hc : Coherent prim db) {closed : Option String}
    (hcre : CallCreate db group closed)
    (hget : ((modifyGroup db.mlsGroups (supersede group) closed).insert group.id group).get k =
      some g) (hon : g.open_ = true) (hkn : g.kind = group.kind)
    (hch : g.channelId = group.channelId) : k = group.id := by
  by_contra hk
  rw [get_insert, if_neg hk] at hget
  rcases hcre.slot with ⟨rfl, hno⟩ | ⟨id, old, rfl, hold, hoch, hoki, hoop⟩
  · have hmem := mem_values_of_get hget
    exact absurd (List.find?_eq_none.mp hno g hmem) (by simp [isOpenGroupOf, hon, hkn, hch])
  · rw [modifyGroup, get_modify] at hget
    by_cases hkid : k = id
    · rw [if_pos hkid, hkid, hold, map_some] at hget
      rw [← some.inj hget] at hon
      exact absurd hon (by simp [supersede])
    · rw [if_neg hkid] at hget
      exact hkid (hc.open_unique k id g old hget hold hon hoop (hch.trans hoch.symm)
        (hkn.trans hoki.symm))

/-- Uniqueness in every slot, when one slot has all its open groups at one key and the
open groups of the other slots were open before. -/
theorem openUnique_of_slot (hc : Coherent prim db) {groups : Table String MlsGroup}
    {id channelId : String} {kind : MlsGroupKind}
    (hsl : ∀ k g, groups.get k = some g → g.open_ = true → g.channelId = channelId →
      g.kind = kind → k = id) (hoth : ∀ k g, groups.get k = some g → g.open_ = true →
      ¬ (g.channelId = channelId ∧ g.kind = kind) → ∃ p, db.mlsGroups.get k = some p ∧
        p.open_ = true ∧ p.channelId = g.channelId ∧ p.kind = g.kind)
    {k1 k2 : String} {g1 g2 : MlsGroup} (h1 : groups.get k1 = some g1)
    (h2 : groups.get k2 = some g2) (ho1 : g1.open_ = true) (ho2 : g2.open_ = true)
    (hch : g1.channelId = g2.channelId) (hkn : g1.kind = g2.kind) : k1 = k2 := by
  by_cases hin : g1.channelId = channelId ∧ g1.kind = kind
  · have hk1 := hsl k1 g1 h1 ho1 hin.1 hin.2
    have hk2 := hsl k2 g2 h2 ho2 (hch.symm.trans hin.1) (hkn.symm.trans hin.2)
    exact hk1.trans hk2.symm
  · obtain ⟨p1, hp1, hpo1, hpc1, hpk1⟩ := hoth k1 g1 h1 ho1 hin
    obtain ⟨p2, hp2, hpo2, hpc2, hpk2⟩ := hoth k2 g2 h2 ho2 (by rw [← hch, ← hkn]; exact hin)
    exact hc.open_unique k1 k2 p1 p2 hp1 hp2 hpo1 hpo2 (hpc1.trans (hch.trans hpc2.symm))
      (hpk1.trans (hkn.trans hpk2.symm))

/-- **At most one open group for each channel and kind, after every step.** -/
theorem openUnique_step (h : Step prim db op next) (hc : Coherent prim db) :
    ∀ k1 k2 g1 g2, next.mlsGroups.get k1 = some g1 → next.mlsGroups.get k2 = some g2 →
      g1.open_ = true → g2.open_ = true → g1.channelId = g2.channelId → g1.kind = g2.kind →
      k1 = k2 := by
  intro k1 k2 g1 g2 h1 h2 ho1 ho2 hch hkn
  have hbef : ∀ k g, next.mlsGroups.get k = some g → g.open_ = true → _ :=
    fun k g hg ho => (h.group hc.groups_keyed k).open_before hg ho
  have hold : (∀ group supersedes, op ≠ .createTextMlsGroup group supersedes) →
      (∀ group supersedes, op ≠ .createMlsGroup group supersedes) → k1 = k2 := by
    intro hnoText hnoCall
    have hbt : ∀ k g, next.mlsGroups.get k = some g → g.open_ = true →
        ∃ p, db.mlsGroups.get k = some p ∧ p.open_ = true ∧ p.channelId = g.channelId ∧
          p.kind = g.kind := by
      intro k g hg ho
      rcases hbef k g hg ho with hp | ⟨_, _, _, _, hop, -⟩ | ⟨_, _, hop, -⟩
      · exact hp
      · exact absurd hop (hnoText _ _)
      · exact absurd hop (hnoCall _ _)
    obtain ⟨p1, hp1, hpo1, hpc1, hpk1⟩ := hbt k1 g1 h1 ho1
    obtain ⟨p2, hp2, hpo2, hpc2, hpk2⟩ := hbt k2 g2 h2 ho2
    exact hc.open_unique k1 k2 p1 p2 hp1 hp2 hpo1 hpo2 (hpc1.trans (hch.trans hpc2.symm))
      (hpk1.trans (hkn.trans hpk2.symm))
  cases h with
  | same => exact hc.open_unique k1 k2 g1 g2 h1 h2 ho1 ho2 hch hkn
  | @createText group prepared supersedes list squat hcre =>
    refine openUnique_of_slot hc (fun k g hg ho hgc hgk =>
      createText_only_open hc hcre hg ho hgk hgc) (fun k g hg ho hnot => ?_) h1 h2 ho1 ho2 hch
      hkn
    rcases hbef k g hg ho with hp | ⟨group', supersedes', list', squat', hop, -, hcr⟩ |
      ⟨_, _, hop, -⟩
    · exact hp
    · cases hop
      exact absurd ⟨hcr.is_prepared.channel_eq, hcr.is_prepared.kind_eq⟩ hnot
    · cases hop
  | @createCall group supersedes closed hcre =>
    refine openUnique_of_slot hc (fun k g hg ho hgc hgk =>
      createCall_only_open hc hcre hg ho hgk hgc) (fun k g hg ho hnot => ?_) h1 h2 ho1 ho2 hch
      hkn
    rcases hbef k g hg ho with hp | ⟨_, _, _, _, hop, -⟩ | ⟨supersedes', closed', hop, -, -⟩
    · exact hp
    · cases hop
    · cases hop
      exact absurd ⟨rfl, rfl⟩ hnot
  | listWrite hop _ =>
    refine hold (fun group supersedes heq => ?_) (fun group supersedes heq => ?_)
    · exact absurd hop (by rw [heq]; simp [Op.seatListInput])
    · exact absurd hop (by rw [heq]; simp [Op.seatListInput])
  | environment | grant | release | delete | close | callCommit | textCommit | intent | sweep
  | prune => exact hold (by simp) (by simp)

/-! ## The open Text groups -/

/-- The list and the active seats of a channel are as they were. -/
structure ChannelFrame (db next : ReferenceDb) (channelId : String) : Prop where
  list_eq : next.channelSeatLists.get channelId = db.channelSeatLists.get channelId
  active_iff : ∀ u, ActiveAt next.channelSeats channelId u ↔ ActiveAt db.channelSeats channelId u

/-- How an open Text group of the next store came about. -/
inductive OpenTextStep (prim : Primitives) (db next : ReferenceDb) : Op → String → MlsGroup → Prop
    where
  | kept {op : Op} {k : String} {group : MlsGroup} :
      db.mlsGroups.get k = some group → ChannelFrame db next group.channelId →
      OpenTextStep prim db next op k group
  | bound {op : Op} {input : SeatListWriteInput} {plan : SeatListWritePlan} {body : SeatListBody}
      {group : MlsGroup} :
      op.seatListInput db = some input → AppliedPlan prim input db.channelSeats body plan →
      input.textGroup = some group → db.mlsGroups.get group.id = some group →
      next.channelSeatLists.get group.channelId = some plan.row →
      (∀ u, ActiveAt next.channelSeats group.channelId u ↔ u ∈ body.seats) →
      OpenTextStep prim db next op group.id (bindList plan group)
  | created {group prepared : MlsGroup} {supersedes : Option String} {list : SeatList}
      {squat : Bool} :
      TextCreate prim db group supersedes list prepared squat →
      ChannelFrame db next prepared.channelId →
      OpenTextStep prim db next (.createTextMlsGroup group supersedes) prepared.id prepared
  | released {userId k : String} {serverId : Option String} {now : Timestamp} {group : MlsGroup} :
      db.mlsGroups.get k = some group →
      next.channelSeatLists.get group.channelId = db.channelSeatLists.get group.channelId →
      (∀ u, u ≠ userId ∨ db.inScope serverId group.channelId = false →
        (ActiveAt next.channelSeats group.channelId u ↔
          ActiveAt db.channelSeats group.channelId u)) →
      OpenTextStep prim db next (.releaseChannelSeatsForUser userId serverId now) k
        (if db.pendsRemoval userId serverId group then pushPending userId now group else group)
  | committed {commit : MlsCommit} {adSha256 : String} {entitlementDeviceCap : Nat}
      {group : MlsGroup} {list : SeatList} {signed : SeatListBody} {plan : MlsTextCommitPlan} :
      db.mlsGroups.get commit.groupId = some group →
      db.channelSeatLists.get group.channelId = some list →
      TextCommitAccepted group commit adSha256 list signed
        (db.storedIntentsFor group commit.removed) (db.revokedIdentitiesFor commit.removed)
        (db.activeSeatUsersFor group.channelId commit.added) plan →
      ChannelFrame db next group.channelId →
      OpenTextStep prim db next (.insertMlsTextCommit commit adSha256 entitlementDeviceCap)
        commit.groupId (applyTextCommit group commit plan)

theorem GroupStep.openText_same (h : GroupStep prim db op k row) (hrow : row = some g')
    (hon : g'.open_ = true) (htx : g'.kind = .text) (hls : op.seatListInput db = none)
    (hcre : ∀ group supersedes, op ≠ .createTextMlsGroup group supersedes)
    (hrele : ∀ u serverId now, op ≠ .releaseChannelSeatsForUser u serverId now)
    (hcom : ∀ commit adSha256 cap, op ≠ .insertMlsTextCommit commit adSha256 cap) :
    db.mlsGroups.get k = some g' := by
  cases h with
  | same => exact hrow
  | bound hop _ _ _ =>
    rw [hls] at hop
    cases hop
  | superseded _ _ =>
    rw [← some.inj hrow] at hon
    exact absurd hon (by simp [supersede])
  | createdText _ => exact absurd rfl (hcre _ _)
  | createdCall hc =>
    rw [← some.inj hrow, hc.kind_call] at htx
    cases htx
  | pended _ _ => exact absurd rfl (hrele _ _ _)
  | closed _ _ =>
    rw [← some.inj hrow] at hon
    cases hon
  | callCommitted _ hkn _ _ =>
    rw [← some.inj hrow] at htx
    cases hkn.symm.trans htx
  | textCommitted _ _ _ => exact absurd rfl (hcom _ _ _)
  | _ => cases hrow

theorem openText_listWrite (hc : Coherent prim db) {input : SeatListWriteInput}
    {plan : SeatListWritePlan} {channels : Table String Channel}
    (hop : op.seatListInput db = some input)
    (hpl : planSeatListWrite prim input = .ok (.apply plan))
    (hget : (modifyGroup db.mlsGroups (bindList plan)
      ((db.openTextGroup input.channelId).map (·.id))).get k = some g') (hon : g'.open_ = true)
    (htx : g'.kind = .text) : OpenTextStep prim db
      { db.applyDecision ((db.openTextGroup input.channelId).map (·.id)) (.apply plan) with
        channels := channels } op k g' := by
  obtain ⟨body, happ⟩ := hc.appliedPlan hop hpl
  have hread := readsChannel_of_seatListInput hop
  -- a group of another channel is kept, with its list and its seats
  have hkp : db.mlsGroups.get k = some g' → g'.channelId ≠ input.channelId → OpenTextStep prim db
        { db.applyDecision ((db.openTextGroup input.channelId).map (·.id)) (.apply plan) with
          channels := channels } op k g' := by
    intro hold hne
    have hul := hc.openText_ulid hold hon htx
    refine .kept hold ⟨?_, fun u => ?_⟩
    · have hins : (db.channelSeatLists.insert plan.row.id plan.row).get g'.channelId =
          db.channelSeatLists.get g'.channelId := by
        rw [get_insert, if_neg (by rw [happ.row_id]; exact hne)]
      exact hins
    · have hst := happ.get_of_ne (u := u) hul hne
      unfold ActiveAt
      rw [← hst]
      exact Iff.rfl
  cases hfnd : db.openTextGroup input.channelId with
  | none =>
    rw [hfnd] at hget hkp
    refine hkp hget fun hch => ?_
    have hsm := hc.openTextGroup_of_get hget hon htx
    rw [hch, hfnd] at hsm
    cases hsm
  | some group =>
    obtain ⟨hgr, hgch, -, -⟩ := openTextGroup_eq_some hc.groups_keyed hfnd
    rw [hfnd] at hget hkp
    rw [map_some, modifyGroup, get_modify] at hget
    by_cases hk : k = group.id
    · rw [if_pos hk, hk, hgr, map_some] at hget
      rw [← some.inj hget, hk]
      refine .bound hop happ (by rw [hread.textGroup_eq, hfnd]) hgr ?_ fun u => ?_
      · have hins : (db.channelSeatLists.insert plan.row.id plan.row).get group.channelId =
            some plan.row := by
          rw [get_insert, if_pos (by rw [happ.row_id]; exact hgch)]
        exact hins
      · rw [hgch]
        exact happ.activeAt_iff
    · rw [if_neg hk] at hget
      refine hkp hget fun hch => hk ?_
      have hsm := hc.openTextGroup_of_get hget hon htx
      rw [hch, hfnd] at hsm
      rw [some.inj hsm, hc.groups_keyed k g' hget]

theorem openText_createText (hcre : TextCreate prim db group supersedes list prepared squat)
    (hget : ((if squat then db.evictSquat prepared.id else db).insertTextGroup group prepared
      supersedes).mlsGroups.get k = some g') (hon : g'.open_ = true) :
    OpenTextStep prim db ((if squat then db.evictSquat prepared.id else db).insertTextGroup group
      prepared supersedes) (.createTextMlsGroup group supersedes) k g' := by
  have hfram : ∀ c, ChannelFrame db ((if squat then db.evictSquat prepared.id
      else db).insertTextGroup group prepared supersedes) c := by
    intro c
    cases squat <;> exact ⟨rfl, fun _ => Iff.rfl⟩
  by_cases hk : k = prepared.id
  · unfold insertTextGroup at hget
    rw [get_insert, if_pos hk] at hget
    rw [← some.inj hget, hk]
    exact .created hcre (hfram _)
  · unfold insertTextGroup at hget
    rw [get_insert, if_neg hk] at hget
    rcases get_closeSuperseded with ⟨heq, -⟩ | ⟨old, -, -, heq⟩
    · rw [heq, get_evictSquat_of_ne hk squat] at hget
      exact .kept hget (hfram _)
    · rw [heq] at hget
      rw [← some.inj hget] at hon
      exact absurd hon (by simp [supersede])

theorem activeAt_released (hs : SeatsCoherent db.channelSeats) {userId : String}
    {serverId : Option String} {now cooldownUntil : Timestamp} (hc : isValidUlidId c = true) :
    ActiveAt (db.channelSeats.mapValues fun seat =>
        if db.releasesSeat userId serverId seat then releasedSeat now cooldownUntil seat
        else seat) c u ↔
      ActiveAt db.channelSeats c u ∧ ¬ (u = userId ∧ db.inScope serverId c = true) := by
  unfold ActiveAt
  rw [get_mapValues]
  cases hget : db.channelSeats.get (ChannelSeat.compositeId c u) with
  | none => simp
  | some seat =>
    obtain ⟨hch, hu, -⟩ := hs.of_get hc hget
    by_cases hrel : db.releasesSeat userId serverId seat = true
    · have hcn := hrel
      rw [releasesSeat, and_eq_true, and_eq_true, beq_iff_eq, hch, hu] at hcn
      simp [hrel, releasedSeat, ChannelSeat.isActive, hcn.1.1, hcn.2]
    · have hcn := hrel
      rw [releasesSeat, and_eq_true, and_eq_true, beq_iff_eq, hch, hu] at hcn
      simp only [map_some, if_neg hrel, some.injEq, exists_eq_left']
      constructor
      · intro hact
        exact ⟨hact, fun hbt => hcn ⟨⟨hbt.1, hact⟩, hbt.2⟩⟩
      · exact fun hact => hact.1

theorem activeAt_deleted (hs : SeatsCoherent db.channelSeats) {channelId : String}
    (hc : isValidUlidId c = true) (hne : c ≠ channelId) :
    ActiveAt (db.channelSeats.retain fun _ seat => seat.channelId != channelId) c u ↔
      ActiveAt db.channelSeats c u := by
  constructor
  · rintro ⟨seat, hget, hact⟩
    exact ⟨seat, (get_retain_eq_some.mp hget).1, hact⟩
  · rintro ⟨seat, hget, hact⟩
    obtain ⟨hch, -, -⟩ := hs.of_get hc hget
    refine ⟨seat, get_retain_eq_some.mpr ⟨hget, ?_⟩, hact⟩
    rw [bne_iff_ne, hch]
    exact hne

section

variable (h : Step prim db op next) (hc : Coherent prim db)
include h hc

/-- **How an open Text group comes about in one step.** -/
theorem Step.openText
    (hget : next.mlsGroups.get k = some g') (hon : g'.open_ = true) (htx : g'.kind = .text) :
    OpenTextStep prim db next op k g' := by
  have hsa := fun hls hcre hrele hcom =>
    (h.group hc.groups_keyed k).openText_same hget hon htx hls hcre hrele hcom
  cases h with
  | same | environment | grant | intent | prune => exact .kept hget ⟨rfl, fun _ => Iff.rfl⟩
  | createCall | close | callCommit | sweep =>
    exact .kept (hsa rfl (by simp) (by simp) (by simp)) ⟨rfl, fun _ => Iff.rfl⟩
  | listWrite hop hpl => exact openText_listWrite hc hop hpl hget hon htx
  | createText hcre => exact openText_createText hcre hget hon
  | @release userId serverId now cooldownUntil hco =>
    rw [get_mapValues, map_eq_some_iff] at hget
    obtain ⟨group, hold, rfl⟩ := hget
    have hgr : group.open_ = true ∧ group.kind = .text := by
      by_cases hp : db.pendsRemoval userId serverId group = true
      · rw [if_pos hp] at hon htx
        exact ⟨hon, htx⟩
      · rw [if_neg hp] at hon htx
        exact ⟨hon, htx⟩
    have hul := hc.openText_ulid hold hgr.1 hgr.2
    refine .released hold rfl fun u hu => ?_
    rw [activeAt_released hc.seats hul]
    refine and_iff_left fun hbt => ?_
    rcases hu with hne | hscop
    · exact hne hbt.1
    · rw [hbt.2] at hscop
      cases hscop
  | delete channelId =>
    have hget' : (db.mlsGroups.retain fun id _ =>
        !(db.textGroupIds channelId).contains id).get k = some g' := hget
    obtain ⟨hold, hke⟩ := get_retain_eq_some.mp hget'
    have hul := hc.openText_ulid hold hon htx
    have hne : g'.channelId ≠ channelId := by
      intro hch
      have hmem := (mem_textGroupIds hc.groups_keyed).mpr ⟨g', hold, hch, htx⟩
      exact absurd hke (by simp [hmem])
    refine .kept hold ⟨?_, fun u => activeAt_deleted hc.seats hul hne⟩
    have hera : (db.channelSeatLists.erase channelId).get g'.channelId =
        db.channelSeatLists.get g'.channelId := by
      rw [get_erase, if_neg hne]
    exact hera
  | @textCommit commit adSha256 cap group list signed plan hrow hgr hls hacc =>
    rw [get_insert] at hget
    by_cases hk : k = commit.groupId
    · rw [if_pos hk] at hget
      rw [← some.inj hget, hk]
      exact .committed hgr hls hacc ⟨rfl, fun _ => Iff.rfl⟩
    · rw [if_neg hk] at hget
      exact .kept hget ⟨rfl, fun _ => Iff.rfl⟩

/-! ## The binding -/

theorem bound_step : ∀ k g, next.mlsGroups.get k = some g → g.open_ = true → g.kind = .text →
      Bound prim next g := by
  intro k g hget hon htx
  cases h.openText hc hget hon htx with
  | kept hold hfram =>
    obtain ⟨list, sha256, hls, hsha, hhs⟩ := hc.bound k g hold hon htx
    exact ⟨list, sha256, hfram.list_eq.trans hls, hsha, hhs⟩
  | @bound _ input plan body group hop happ _ _ hls _ =>
    exact ⟨plan.row, plan.seatListAdSha256, hls, happ.hash_eq, rfl⟩
  | @created group _ supersedes list squat hcre hfram =>
    obtain ⟨sha256, hsha, hhs⟩ := hcre.is_prepared.hash_eq
    refine ⟨list, sha256, ?_, hsha, hhs⟩
    rw [hfram.list_eq, hcre.is_prepared.channel_eq]
    exact hcre.list_get
  | @released userId _ serverId now group hold hls _ =>
    by_cases hp : db.pendsRemoval userId serverId group = true
    · rw [if_pos hp] at hon htx ⊢
      obtain ⟨list, sha256, hget', hsha, hhs⟩ := hc.bound k group hold hon htx
      exact ⟨list, sha256, hls.trans hget', hsha, hhs⟩
    · rw [if_neg hp] at hon htx ⊢
      obtain ⟨list, sha256, hget', hsha, hhs⟩ := hc.bound k group hold hon htx
      exact ⟨list, sha256, hls.trans hget', hsha, hhs⟩
  | @committed commit adSha256 cap group list signed plan hold hls hacc hfram =>
    obtain ⟨list', sha256, hget', hsha, hhs⟩ := hc.bound _ group hold hacc.is_open hacc.kind_text
    exact ⟨list', sha256, hfram.list_eq.trans hget', hsha, hhs⟩

/-- **Every step keeps the store coherent.** -/
theorem coherent_step : Coherent prim next where
  groups_keyed := groupsKeyed_step h hc.groups_keyed
  seats := seatsCoherent_step h hc
  lists := listsStored_step h hc
  entitlements_keyed := entitlementsKeyed_step h hc
  entitlement_unique := entitlementUnique_step h hc
  open_unique := openUnique_step h hc
  bound := bound_step h hc

end

theorem coherent_exec (op : Op) (hc : Coherent prim db) : Coherent prim (exec prim db op).1 :=
  coherent_step (step_exec prim db op) hc

theorem coherent_of_run {admits : ReferenceDb → Op → Prop} {h : List (ReferenceDb × Op)}
    (hrun : Run (exec prim) admits .empty h db) : Coherent prim db :=
  hrun.invariant (fun _ op _ hc => coherent_exec op hc) (coherent_empty prim)

end SlogaBackend.Mls
