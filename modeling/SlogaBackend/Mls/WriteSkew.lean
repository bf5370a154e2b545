import SlogaBackend.Mls.Landings

/-!
# No write skew

The protected-channel transactions of the MongoDB driver run under snapshot isolation.
Each of them reads documents it does not change, and the code makes up for it with
writes that change nothing: a Text create writes the list it binds its group to, a
seat-list write that seats somebody writes the entitlement whose cap it checked, and
writes the open Text group always, a Text commit writes the seats of the users it adds.
`no_write_skew` says that this is enough, however many transactions run and however they
interleave.

## The invariant

The store invariant is `Consistent` and the slot cap. The invariant of a snapshot is
`Follows`: what the snapshot still tells about the committed store, given which
documents have been written since.

* While nobody has written the list of a channel, the Text groups open there are in the
  snapshot.
* While nobody has written the entitlement of a channel, the seats that count against
  its cap are in the snapshot, and so they are while the channel has no entitlement.
* While nobody has written an open Text group of the snapshot, its channel's list is
  the snapshot's.

A transaction that lands has written the document in question itself, so nobody else
has, and it may rely on what it read. The three clauses are kept by every landing
because each transaction writes the documents that speak for what it changes.
-/

namespace SlogaBackend.Mls
namespace Txn

open Checks ReferenceDb

variable {prim : Primitives} {s before after : Store} {v : View} {now? : Option Timestamp}
  {since : List DocKey}

/-- At a time, no channel with an entitlement uses more seats than its cap. -/
def Store.WithinCap (s : Store) (time : Timestamp) : Prop :=
  ∀ k entitlement, s.channelEntitlements.get k = some entitlement →
    (countedKeys s.channelSeats entitlement.channelId time).card ≤ entitlement.slotCap

/-- What a snapshot tells about the committed store, some documents having been written
since. -/
structure Follows (s : Store) (since : List DocKey) (committed : Store) : Prop where
  text_known : ∀ {channelId k group}, DocKey.seatList channelId ∉ since →
    committed.mlsGroups.get k = some group → isOpenTextGroupOf channelId group = true →
    ∃ known, s.mlsGroups.get k = some known ∧ isOpenTextGroupOf channelId known = true
  seats_known : ∀ channelId, (∀ time, countedKeys committed.channelSeats channelId time ⊆
      countedKeys s.channelSeats channelId time) ∨
    ∃ k entitlement, committed.channelEntitlements.get k = some entitlement ∧
      entitlement.channelId = channelId ∧ DocKey.entitlement k ∈ since
  list_known : ∀ {channelId k group}, s.mlsGroups.get k = some group →
    isOpenTextGroupOf channelId group = true → DocKey.group k ∉ since →
    committed.channelSeatLists.get channelId = s.channelSeatLists.get channelId

theorem follows_refl (s : Store) : Follows s [] s where
  text_known := fun _ hg hop => ⟨_, hg, hop⟩
  seats_known := fun _ => .inl fun _ => Finset.Subset.refl _
  list_known := fun _ _ _ => rfl

/-! ## The committed store -/

section Committed

variable (h : Landed prim now? s v before after) (hs : Consistent prim s)
  (hb : Consistent prim before) (hfr : ∀ k ∈ v.keys, k ∉ since) (hf : Follows s since before)

include h hs hb hfr hf

/-- **The open Text groups stay bound.** -/
theorem bound_landed {channelId k : String} {group : MlsGroup}
    (hg : after.mlsGroups.get k = some group)
    (hop : isOpenTextGroupOf channelId group = true) : after.Binds prim channelId group := by
  cases h.group hs hg with
  | same hold hsm =>
    have hopenOld := hsm.openText hop
    by_cases hls : v.channelSeatLists.rows.get channelId = s.channelSeatLists.get channelId
    · obtain ⟨list, sha256, hsto, hsha, hhs⟩ := hb.bound hold hopenOld
      refine ⟨list, sha256, ?_, hsha, hsm.hash_eq.trans hhs⟩
      rw [h.lists.get_eq hls]
      exact hsto
    · -- the list was written, so the group is one the transaction knew, and it wrote it
      obtain ⟨hwr, -, haft⟩ := h.lists.get_changed hls
      have huns := hfr _ (v.seatList_mem_keys.mpr hwr)
      obtain ⟨known, hkn, hopenKnown⟩ := hf.text_known huns hold hopenOld
      have hk := h.effect.group_written_of_list hs h.sound hls hkn hopenKnown
      have hstag : v.mlsGroups.rows.get k = some group := by
        rw [← h.groups.after_of_mem hk]
        exact hg
      obtain ⟨list, sha256, hsto, hsha, hhs⟩ := h.effect.bound_of_list hs hls hkn hopenKnown hstag
      exact ⟨list, sha256, haft.trans hsto, hsha, hhs⟩
  | @created _ list _ hcreat =>
    have hprep := hcreat.is_prepared
    obtain ⟨sha256, hsha, hhs⟩ := hprep.hash_eq
    have hcha := (isOpenTextGroupOf_iff.mp hop).1
    rw [hprep.channel_eq] at hcha
    have hls := hcreat.list_get
    rw [hcha] at hls
    have hwr := hcreat.list_written
    rw [hs.lists_keyed channelId list hls] at hwr
    refine ⟨list, sha256, ?_, hsha, hhs⟩
    rw [h.lists.after_of_mem hwr, hcreat.lists]
    exact hls
  | @bound input plan old hlst hold hrow hopenOld =>
    obtain ⟨body, happ⟩ := hs.appliedPlan hlst
    have hcha : input.channelId = channelId := by
      rw [hrow] at hop
      exact (isOpenTextGroupOf_iff.mp hopenOld).1.symm.trans (isOpenTextGroupOf_iff.mp hop).1
    have hwr := hlst.list_written
    rw [happ.row_id, hcha] at hwr
    refine ⟨plan.row, plan.seatListAdSha256, ?_, happ.hash_eq, ?_⟩
    · rw [h.lists.after_of_mem hwr, hlst.lists, get_insert, happ.row_id, hcha, if_pos rfl]
    · rw [hrow]
      rfl

theorem consistent_landed : Consistent prim after where
  groups_keyed := h.groupsKeyed hs hb
  lists_keyed := h.listsKeyed hs hb
  entitlements_keyed := by
    intro k entitlement hg
    rcases h.entitlement hg with hold | ⟨now, -, -, hk⟩
    · exact hb.entitlements_keyed k entitlement hold
    · exact hk.symm
  seats := h.seatsCoherent hs hb
  entitlement_unique := h.entitlement_unique
  text_unique := h.text_unique
  bound := bound_landed h hs hb hfr hf
  marked := h.marked hb

/-- The entitlement a seat-list write has claimed is the channel's, and the snapshot knows
the seats. -/
theorem claimed_entitlement {input : SeatListWriteInput} {plan : SeatListWritePlan}
    (hlst : ListWritten prim s input plan v) (hclaim : plan.claimed ≠ []) :
    ∃ entitlement, input.entitlement = some entitlement ∧ entitlement.channelId = input.channelId ∧
      s.channelEntitlements.get entitlement.id = some entitlement ∧
      entitlement.id ∈ v.channelEntitlements.written ∧
      before.channelEntitlements.get entitlement.id = some entitlement ∧
      ∀ time, countedKeys before.channelSeats input.channelId time ⊆
        countedKeys s.channelSeats input.channelId time := by
  obtain ⟨body, happ⟩ := hs.appliedPlan hlst
  obtain ⟨entitlement, -, hent, -⟩ := happ.claims_allowed hclaim
  have hfn := hlst.input_entitlement.symm.trans hent
  have hcha := findEntitlement_channel hfn
  have hg := hs.findEntitlement_get hfn
  have hwr := hlst.entitlement_written hclaim entitlement hent
  have hbef : before.channelEntitlements.get entitlement.id = some entitlement :=
    (h.entitlements.before_of_mem hwr).trans hg
  refine ⟨entitlement, hent, hcha, hg, hwr, hbef, ?_⟩
  rcases hf.seats_known input.channelId with hkn | ⟨k, other, hoth, hch, hsin⟩
  · exact hkn
  · have hk := hb.entitlement_unique hoth hbef (hch.trans hcha.symm)
    rw [hk] at hsin
    exact absurd hsin (hfr _ (v.entitlement_mem_keys.mpr hwr))

/-- **The slot cap holds**, from the clock reading of the request on. -/
theorem withinCap_landed {time : Timestamp} (hcap : ∀ now ∈ now?, s.WithinCap now)
    (hnow : ∀ now ∈ now?, now ≤ time) (hbef : before.WithinCap time) : after.WithinCap time := by
  intro k entitlement hg
  rcases h.entitlement hg with hold | ⟨now, hnow?, hgran, hk⟩
  · rcases h.effect.counted hs entitlement.channelId with hfew | ⟨input, plan, hnow?, hlst,
      hclaim, hcha⟩
    · exact (Finset.card_le_card (h.counted_subset (hfew time))).trans (hbef k entitlement hold)
    · obtain ⟨claimed, hent, hch, hcla, -, hclaimedBefore, hkn⟩ :=
        claimed_entitlement h hs hb hfr hf hlst hclaim
      have hkey := hb.entitlement_unique hold hclaimedBefore (hcha.symm.trans hch.symm)
      have hsm : entitlement = claimed := by
        rw [hkey, hclaimedBefore] at hold
        exact (some.inj hold).symm
      obtain ⟨body, happ⟩ := hs.appliedPlan hlst
      have hft : (countedKeys s.channelSeats input.channelId input.now).card ≤ claimed.slotCap := by
        rw [← hch]
        exact hcap input.now hnow? claimed.id claimed hcla
      have hcr := card_countedKeys_applied hs.seats happ hlst.input_seats hclaim hent hft
      rw [← hlst.seats] at hcr
      rw [hsm, hch]
      calc (countedKeys after.channelSeats input.channelId time).card
          ≤ (countedKeys v.channelSeats.rows input.channelId time).card :=
            Finset.card_le_card (h.counted_subset_staged (hkn time))
        _ ≤ (countedKeys v.channelSeats.rows input.channelId input.now).card :=
            Finset.card_le_card (countedKeys_antitone (hnow input.now hnow?))
        _ ≤ claimed.slotCap := hcr
  · rcases hf.seats_known entitlement.channelId with hkn | ⟨k', other, hoth, hch, hsin⟩
    · have hrm := hgran.room
      rw [← card_countedKeys] at hrm
      have hsea : countedKeys after.channelSeats entitlement.channelId time ⊆
          countedKeys v.channelSeats.rows entitlement.channelId time :=
        h.counted_subset_staged (hkn time)
      rw [hgran.seats] at hsea
      exact (Finset.card_le_card (hsea.trans (countedKeys_antitone (hnow now hnow?)))).trans hrm
    · -- a second entitlement of the channel would break the unique index
      have hwr := v.entitlement_mem_keys.mpr hgran.entitlement_written
      have hne : k' ≠ entitlement.id := fun heq => hfr _ hwr (heq ▸ hsin)
      have hkp : after.channelEntitlements.get k' = some other := by
        rw [h.entitlements.get_eq (by rw [hgran.entitlements, get_insert, if_neg hne])]
        exact hoth
      exact absurd ((h.entitlement_unique hkp hg hch).trans hk) hne

end Committed

/-! ## The other snapshots -/

theorem counted_deleted (h : Landed prim now? s v before after) (hb : Consistent prim before)
    (hfr : ∀ k ∈ v.keys, k ∉ since) (hf : Follows s since before) {channelId : String}
    (hdel : ChannelDeleted s channelId v) {k : String} {entitlement : ChannelEntitlement}
    (hg : before.channelEntitlements.get k = some entitlement)
    (hcha : entitlement.channelId = channelId)
    (hwr : k ∈ v.channelEntitlements.written) (time : Timestamp) :
    countedKeys after.channelSeats channelId time = ∅ := by
  have hkn : countedKeys before.channelSeats channelId time ⊆
      countedKeys s.channelSeats channelId time := by
    rcases hf.seats_known channelId with hkn | ⟨k', other, hoth, hch, hsin⟩
    · exact hkn time
    · have hk := hb.entitlement_unique hoth hg (hch.trans hcha.symm)
      rw [hk] at hsin
      exact absurd hsin (hfr _ (v.entitlement_mem_keys.mpr hwr))
  refine Finset.eq_empty_of_forall_notMem fun key hkey => ?_
  obtain ⟨seat, hst, hch, -⟩ := mem_countedKeys.mp (h.counted_subset_staged hkn hkey)
  rw [hdel.seats, get_retain_eq_some] at hst
  exact absurd hst.2 (by simp [hch])

section Others

variable (h : Landed prim now? s v before after) (hs : Consistent prim s)
  (hb : Consistent prim before) (hfr : ∀ k ∈ v.keys, k ∉ since) (hf : Follows s since before)
  {s₂ : Store} {since₂ : List DocKey} (hf₂ : Follows s₂ since₂ before)

include h hs hf₂

variable {group : MlsGroup}

/-- Whoever opens a Text group writes the list of its channel. -/
theorem text_known_landed {channelId k : String}
    (hout : DocKey.seatList channelId ∉ v.keys ++ since₂) (hg : after.mlsGroups.get k = some group)
    (hop : isOpenTextGroupOf channelId group = true) :
    ∃ known, s₂.mlsGroups.get k = some known ∧ isOpenTextGroupOf channelId known = true := by
  rw [mem_append, not_or, v.seatList_mem_keys] at hout
  cases h.group hs hg with
  | same hold hsm => exact hf₂.text_known hout.2 hold (hsm.openText hop)
  | @created _ list _ hcreat =>
    have hcha := (isOpenTextGroupOf_iff.mp hop).1
    rw [hcreat.is_prepared.channel_eq] at hcha
    have hid := hs.lists_keyed _ list hcreat.list_get
    rw [hcha] at hid
    exact absurd (hid ▸ hcreat.list_written) hout.1
  | bound _ hold hrow _ =>
    rw [hrow] at hop
    exact hf₂.text_known hout.2 hold hop

include hfr hf

theorem list_known_landed
    (hfram2 : ∀ k, DocKey.group k ∉ since₂ → s₂.mlsGroups.get k = before.mlsGroups.get k)
    {channelId k : String} (hg : s₂.mlsGroups.get k = some group)
    (hop : isOpenTextGroupOf channelId group = true) (hout : DocKey.group k ∉ v.keys ++ since₂) :
    after.channelSeatLists.get channelId = s₂.channelSeatLists.get channelId := by
  rw [mem_append, not_or, v.group_mem_keys] at hout
  have hbef := hf₂.list_known hg hop hout.2
  have hgr := (hfram2 k hout.2).symm.trans hg
  have hsm : v.channelSeatLists.rows.get channelId = s.channelSeatLists.get channelId := by
    by_contra hchan
    obtain ⟨hwr, -, -⟩ := h.lists.get_changed hchan
    have huns := hfr _ (v.seatList_mem_keys.mpr hwr)
    obtain ⟨known, hkn, hopenKnown⟩ := hf.text_known huns hgr hop
    exact hout.1 (h.effect.group_written_of_list hs h.sound hchan hkn hopenKnown)
  exact (h.lists.get_eq hsm).trans hbef

include hb

theorem seats_known_landed (channelId : String) :
    (∀ time, countedKeys after.channelSeats channelId time ⊆
      countedKeys s₂.channelSeats channelId time) ∨
    ∃ k entitlement, after.channelEntitlements.get k = some entitlement ∧
      entitlement.channelId = channelId ∧ DocKey.entitlement k ∈ v.keys ++ since₂ := by
  rcases h.effect.counted hs channelId with hfew | ⟨input, plan, -, hlst, hclaim, hcha⟩
  · rcases hf₂.seats_known channelId with hkn | ⟨k, entitlement, hg, hch, hsin⟩
    · exact .inl fun time => (h.counted_subset (hfew time)).trans (hkn time)
    · have hmem : DocKey.entitlement k ∈ v.keys ++ since₂ := mem_append_right _ hsin
      rcases h.entitlements k with ⟨hkp, -, -⟩ | ⟨hwr, hbef, haft⟩
      · exact .inr ⟨k, entitlement, hkp.trans hg, hch, hmem⟩
      · -- the entitlement was written: granted anew, deleted, or only touched
        have hsnap := hbef.symm.trans hg
        have hsm : v.channelEntitlements.rows = s.channelEntitlements →
            after.channelEntitlements.get k = some entitlement := fun hrw => by
          rw [haft, hrw]
          exact hsnap
        cases h.effect with
        | same heff => exact .inr ⟨k, entitlement, hsm heff.channelEntitlements, hch, hmem⟩
        | listed _ heff | created heff | released heff | committed heff =>
          exact .inr ⟨k, entitlement, hsm heff.entitlements, hch, hmem⟩
        | @granted now stored _ heff =>
          rw [heff.entitlements, get_insert] at haft
          split at haft
          · rename_i hk
            refine .inr ⟨k, stored, haft, ?_, hmem⟩
            rw [hk] at hsnap
            rcases heff.replaced with hfre | ⟨existing, hfn, hid⟩
            · cases hfre.symm.trans hsnap
            · have hexi := hs.findEntitlement_get hfn
              rw [hid, hsnap] at hexi
              rw [← findEntitlement_channel hfn, ← some.inj hexi]
              exact hch
          · exact .inr ⟨k, entitlement, haft.trans hsnap, hch, hmem⟩
        | @deleted channelId' heff =>
          by_cases hdel : channelId = channelId'
          · subst hdel
            refine .inl fun time => ?_
            rw [counted_deleted h hb hfr hf heff hg hch hwr time]
            exact Finset.empty_subset _
          · refine .inr ⟨k, entitlement, ?_, hch, hmem⟩
            rw [haft, heff.entitlements, get_retain_eq_some]
            exact ⟨hsnap, by simp [hch, hdel]⟩
  · obtain ⟨entitlement, -, hch, hg, hwr, -, -⟩ := claimed_entitlement h hs hb hfr hf hlst hclaim
    refine .inr ⟨entitlement.id, entitlement, ?_, hch.trans hcha,
      mem_append_left _ (v.entitlement_mem_keys.mpr hwr)⟩
    rw [h.entitlements.after_of_mem hwr, hlst.entitlements]
    exact hg

theorem follows_landed
    (hfram2 : ∀ k, DocKey.group k ∉ since₂ → s₂.mlsGroups.get k = before.mlsGroups.get k) :
    Follows s₂ (v.keys ++ since₂) after where
  text_known := text_known_landed h hs hf₂
  seats_known := seats_known_landed h hs hb hfr hf hf₂
  list_known := list_known_landed h hs hfr hf hf₂ hfram2

end Others

/-! ## Added devices -/

/-- A device that joins a Text group is one of a user who is seated, on the committed list,
and not on the way out. -/
structure Seated (committed : Store) (group : MlsGroup) (device : MlsMemberDevice) : Prop where
  active : ActiveAt committed.channelSeats group.channelId device.userId
  listed : ∃ list body, committed.channelSeatLists.get group.channelId = some list ∧
    SeatListBody.parse list.body = .ok body ∧ device.userId ∈ body.seats
  no_pending : group.pendingRemovals = []

/-- **Only a Text commit adds devices to a Text group, and only of seated users.** -/
theorem seated_landed (h : Landed prim now? s v before after)
    (hfr : ∀ k ∈ v.keys, k ∉ since) (hf : Follows s since before) {k : String}
    {group next : MlsGroup} (hg : before.mlsGroups.get k = some group)
    (hkd : group.kind = .text) (hg' : after.mlsGroups.get k = some next)
    {device : MlsMemberDevice} (hmem : device ∈ next.members) (hnew : device ∉ group.members) :
    Seated after group device := by
  have hmbs : next.members ≠ group.members := fun heq => hnew (heq ▸ hmem)
  obtain ⟨hk, hbef, haft⟩ : k ∈ v.mlsGroups.written ∧ s.mlsGroups.get k = some group ∧
      v.mlsGroups.rows.get k = some next := by
    rcases h.groups k with ⟨hkp, -, -⟩ | ⟨hk, hbef, haft⟩
    · rw [hkp, hg, some.injEq] at hg'
      exact absurd (by rw [hg']) hmbs
    · exact ⟨hk, hbef.symm.trans hg, haft.symm.trans hg'⟩
  cases h.effect with
  | same heff =>
    rw [heff.mlsGroups, hbef, some.injEq] at haft
    exact absurd (by rw [haft]) hmbs
  | granted _ heff =>
    rw [heff.groups, hbef, some.injEq] at haft
    exact absurd (by rw [haft]) hmbs
  | listed _ heff =>
    rw [heff.groups, get_modifyGroup, hbef] at haft
    split at haft
    · exact absurd (by rw [← some.inj haft]; rfl) hmbs
    · exact absurd (by rw [some.inj haft]) hmbs
  | @created _ prepared _ heff =>
    by_cases hid : k = prepared.id
    · rw [hid] at hbef
      cases hkd.symm.trans (heff.id_free group hbef)
    · obtain ⟨old, hold, hrow⟩ := heff.groups k next hid haft
      rw [hbef, some.injEq] at hold
      subst hold
      rcases hrow with rfl | rfl
      · exact absurd rfl hmbs
      · exact absurd rfl hmbs
  | released heff =>
    obtain ⟨old, hold, hrow⟩ := heff.groups k next haft
    rw [hbef, some.injEq] at hold
    subst hold
    rcases hrow with rfl | ⟨userId, now, rfl⟩
    · exact absurd rfl hmbs
    · exact absurd rfl hmbs
  | deleted heff =>
    rw [heff.groups, get_retain_eq_some, hbef, some.injEq] at haft
    exact absurd (by rw [haft.1]) hmbs
  | @committed commit target list signed plan heff =>
    rw [heff.groups, get_insert] at haft
    split at haft
    · rename_i hid
      obtain rfl : target = group := by
        rw [hid, heff.group_get] at hbef
        exact some.inj hbef
      obtain ⟨_, _, _, _, hacc⟩ := heff.accepted
      have hadd : device ∈ commit.added := by
        rw [← some.inj haft] at hmem
        have hpl : device ∈ plan.members := hmem
        rw [hacc.members_eq, mem_applyDelta] at hpl
        rcases hpl with ⟨hold, -⟩ | hadd
        · exact absurd hold hnew
        · exact hadd
      obtain ⟨⟨seat, hst, hact⟩, hwr⟩ := heff.seats_written device hadd
      have hop : isOpenTextGroupOf target.channelId target = true :=
        isOpenTextGroupOf_iff.mpr ⟨rfl, hacc.is_open, hacc.kind_text⟩
      have hls := hf.list_known heff.group_get hop (hfr _ (v.group_mem_keys.mpr heff.group_written))
      refine ⟨⟨seat, ?_, hact⟩, ⟨list, signed, ?_, hacc.parsed, (hacc.adds device hadd).2.2⟩, ?_⟩
      · rw [h.seats.after_of_mem hwr, heff.seats]
        exact hst
      · rw [h.list_get heff.lists, hls]
        exact heff.list_get
      · rcases hacc.no_pending with hno | hpend
        · rw [hno] at hadd
          cases hadd
        · exact hpend
    · rw [hbef, some.injEq] at haft
      exact absurd (by rw [haft]) hmbs

/-! ## Whole interleavings -/

/-- No committed request was made later than a time. -/
def NotBefore (log : List Request) (time : Timestamp) : Prop :=
  ∀ request ∈ log, ∀ now ∈ request.now?, now ≤ time

/-- What holds of the committed store. -/
structure Good (prim : Primitives) (log : List Request) (s : Store) : Prop where
  consistent : Consistent prim s
  withinCap : ∀ time, NotBefore log time → s.WithinCap time

/-- What holds between a transaction in flight and the committed store. -/
structure Rel (prim : Primitives) (txn : InFlight) (committed : Store) : Prop where
  consistent : Consistent prim txn.snapshot
  withinCap : ∀ now ∈ txn.request.now?, txn.snapshot.WithinCap now
  follows : Follows txn.snapshot txn.since committed

theorem fresh_of_landing {txn : InFlight} {view : Store} {keys : List DocKey} {answer : Response}
    (h : LandingOf prim txn view keys answer before after) (hky : keys = v.keys) :
    ∀ k ∈ v.keys, k ∉ txn.since := fun k hk => h.fresh k (hky ▸ hk)

theorem keptByLanding (prim : Primitives) :
    Database.KeptByLanding documents (attempt prim) uniqueIndexes (Good prim) (Rel prim) := by
  intro txn view keys answer log before after hlan hfram hgd hrel
  obtain ⟨v, hky, h⟩ := landed_of_landing hlan hfram
  have hfr := fresh_of_landing hlan hky
  refine ⟨⟨?_, fun time htm => ?_⟩, fun other hfram2 hrel2 => ?_⟩
  · exact consistent_landed h hrel.consistent hgd.consistent hfr hrel.follows
  · have hbef := hgd.withinCap time fun request hmem => htm request (mem_cons_of_mem _ hmem)
    exact withinCap_landed h hrel.consistent hgd.consistent hfr hrel.follows hrel.withinCap
      (htm txn.request mem_cons_self) hbef
  · refine ⟨hrel2.consistent, hrel2.withinCap, ?_⟩
    have hfol := follows_landed h hrel.consistent hgd.consistent hfr hrel.follows
      hrel2.follows fun k hk => hfram2 (.group k) hk
    rw [← hky] at hfol
    exact hfol

theorem rel_begin (db : TxnDatabase) (id : Nat) (request : Request)
    (hadm : Admits db (.begin id request)) (hgd : Good prim db.log db.committed) :
    Rel prim ⟨request, db.committed, []⟩ db.committed where
  consistent := hgd.consistent
  withinCap := fun now hnow =>
    hgd.withinCap now fun earlier hmem t ht => hadm earlier hmem t ht now hnow
  follows := follows_refl db.committed

/-- A store in which no channel has been protected yet: Call groups and unmarked commits
may be there. -/
structure Unprotected (s : Store) : Prop where
  entitlements : s.channelEntitlements = ∅
  lists : s.channelSeatLists = ∅
  seats : s.channelSeats = ∅
  calls : ∀ k group, s.mlsGroups.get k = some group → group.id = k ∧ group.kind = .call
  unmarked : ∀ k document, s.mlsCommits.get k = some document → document.kind ≠ some .text

theorem Unprotected.good (h : Unprotected s) : Good prim [] s where
  consistent := {
    groups_keyed := fun k group hg => (h.calls k group hg).1
    lists_keyed := fun k list hg => absurd hg (by simp [h.lists])
    entitlements_keyed := fun k entitlement hg => absurd hg (by simp [h.entitlements])
    seats := fun k seat hg => absurd hg (by simp [h.seats])
    entitlement_unique := fun hg => absurd hg (by simp [h.entitlements])
    text_unique := fun hg _ hop => by
      have hkd := (isOpenTextGroupOf_iff.mp hop).2.2
      cases hkd.symm.trans (h.calls _ _ hg).2
    bound := fun hg hop => by
      have hkd := (isOpenTextGroupOf_iff.mp hop).2.2
      cases hkd.symm.trans (h.calls _ _ hg).2
    marked := fun k document hg hkd => absurd hkd (h.unmarked k document hg) }
  withinCap := fun time _ k entitlement hg => absurd hg (by simp [h.entitlements])

theorem holds_of_run (hs : Unprotected s) {history : List (TxnDatabase × TxnEvent Request)}
    {db : TxnDatabase} (hrun : Run (exec prim) Admits (Database.idle s) history db) :
    Database.Holds documents (Good prim) (Rel prim) db :=
  Database.holds_of_run rel_begin (keptByLanding prim) hs.good hrun

/-- What the protected-channel transactions promise of a database. -/
structure SkewFree (prim : Primitives) (db : TxnDatabase) : Prop where
  /-- the open Text group of a channel carries the hash of the committed newest list -/
  bound : ∀ channelId, ∀ group ∈ db.committed.mlsGroups.values,
    isOpenTextGroupOf channelId group = true → ∃ list sha256,
      db.committed.channelSeatLists.get channelId = some list ∧
        list.commitAdSha256 prim = .ok sha256 ∧ group.seatListAdSha256 = some sha256
  /-- a channel has at most one open Text group -/
  one_open : ∀ channelId k k' group group', db.committed.mlsGroups.get k = some group →
    db.committed.mlsGroups.get k' = some group' → isOpenTextGroupOf channelId group = true →
    isOpenTextGroupOf channelId group' = true → k = k'
  /-- the seats in use fit the committed entitlement, at every time from the last committed
  clock reading on -/
  within_cap : ∀ time, NotBefore db.log time →
    ∀ entitlement ∈ db.committed.channelEntitlements.values,
      channelSeatsUsed (seatsOf db.committed.channelSeats entitlement.channelId) time ≤
        entitlement.slotCap
  /-- no two Text-marked commits share a group and an epoch -/
  one_commit : ∀ k k' document document', db.committed.mlsCommits.get k = some document →
    db.committed.mlsCommits.get k' = some document' → document.kind = some .text →
    document'.kind = some .text → document.row.groupId = document'.row.groupId →
    document.row.epoch = document'.row.epoch → k = k'
  /-- whatever happens next, a device joins a Text group only if its user is seated then -/
  added_seated : ∀ event k group next device, db.committed.mlsGroups.get k = some group →
    group.kind = .text → (exec prim db event).1.committed.mlsGroups.get k = some next →
    device ∈ next.members → device ∉ group.members →
    Seated (exec prim db event).1.committed group device

/-- **No write skew.** From a store without protected channels, after any interleaving of
any number of the transactions whose clock readings do not run backwards, the open Text
groups are bound to the newest lists, a channel has at most one of them, the slot caps
hold, a Text commit is alone in its epoch, and the next step adds devices of seated users
only. -/
theorem no_write_skew (hs : Unprotected s) {history : List (TxnDatabase × TxnEvent Request)}
    {db : TxnDatabase} (hrun : Run (exec prim) Admits (Database.idle s) history db) :
    SkewFree prim db := by
  have hholds := holds_of_run hs hrun
  have hconsistent := hholds.good.consistent
  refine ⟨?_, ?_, ?_, ?_, ?_⟩
  · intro channelId group hmem hopen
    obtain ⟨k, hget⟩ := mem_values.mp hmem
    exact hconsistent.bound hget hopen
  · intro channelId k k' group group' hget hget' hopen hopen'
    exact hconsistent.text_unique hget hget' hopen hopen'
  · intro time htime entitlement hmem
    obtain ⟨k, hget⟩ := mem_values.mp hmem
    rw [← card_countedKeys]
    exact hholds.good.withinCap time htime k entitlement hget
  · intro k k' document document' hget hget' hkind hkind' hgroup hepoch
    rw [hconsistent.marked k document hget hkind, hconsistent.marked k' document' hget' hkind',
      hgroup, hepoch]
  · intro event k group next device hget hkind hget' hmem hnew
    rcases Database.exec_committed documents (attempt prim) uniqueIndexes db event with
      hsame | ⟨id, txn, view, keys, answer, hactive, hlanding⟩
    · rw [exec, hsame, hget, some.injEq] at hget'
      exact absurd (hget' ▸ hmem) hnew
    · obtain ⟨v, hkeys, h⟩ := landed_of_landing hlanding (hholds.framed id txn hactive)
      exact seated_landed h (fresh_of_landing hlanding hkeys) (hholds.rel id txn hactive).follows
        hget hkind hget' hmem hnew

/-! ## A race for the cap -/

namespace Race

open Mls.Sample

/-- The sample channel before anything was granted. -/
def store : Store where
  channels := environment.channels
  messages := ∅
  servers := environment.servers
  serverMembers := environment.serverMembers
  channelEntitlements := ∅
  channelSeatLists := ∅
  channelSeats := ∅
  mlsGroups := ∅
  mlsCommits := ∅
  mlsJoinIntents := ∅
  e2eeIdentities := environment.e2eeIdentities
  e2eeQueue := ∅

/-- The genesis list takes both slots of the grant while an admin, who sees no seat yet,
lowers the cap to one. -/
def events : List (TxnEvent Request) :=
  [.begin 0 (.upsertEntitlement entitlement 0), .commit 0,
    .begin 1 (.protect channelId genesis (seconds 1)),
    .begin 2 (.upsertEntitlement { entitlement with slotCap := 1 } (seconds 1)),
    .commit 1, .commit 2]

/-- The database after the race. -/
def database : TxnDatabase := execAll (exec primitives) (Database.idle store) events

theorem unprotected : Unprotected store where
  entitlements := rfl
  lists := rfl
  seats := rfl
  calls := fun k group hg => absurd hg (by simp [store])
  unmarked := fun k document hg => absurd hg (by simp [store])

/-- A request one second after the grant. -/
theorem admits_later {db : TxnDatabase} (hlog : db.log = [.upsertEntitlement entitlement 0])
    {id : Nat} {request : Request} (hnow : request.now? = some (seconds 1)) :
    Admits db (.begin id request) := by
  intro earlier hmem t ht now hnow'
  rw [hlog, mem_singleton] at hmem
  subst hmem
  obtain rfl : now = seconds 1 := some.inj (hnow'.symm.trans hnow)
  obtain rfl : t = 0 := (some.inj ht).symm
  decide

theorem admitted : AdmitsAll (exec primitives) Admits (Database.idle store) events :=
  ⟨by simp [Admits, Database.idle], trivial, admits_later rfl rfl, admits_later rfl rfl, trivial,
    trivial, trivial⟩

/-- The store once the grant has landed. -/
def granted : Store :=
  { store with
    channelEntitlements := (∅ : Table String ChannelEntitlement).insert entitlement.id entitlement }

/-- The call that protects the channel. -/
def protect : Request := .protect channelId genesis (seconds 1)

/-- The call that lowers the cap. -/
def lower : Request := .upsertEntitlement { entitlement with slotCap := 1 } (seconds 1)

/-- What the protect has claimed when its list is planned. -/
def claimed : View := { View.of granted with servers := ⟨granted.servers, [serverId]⟩ }

def protectPlanned : Attempt (View × SeatListWriteOutcome) := do
  let v ← claimForSeats claimed (some serverId) (some entitlement) (.apply genesisPlan)
  let v ← applyDecision v none none (.apply genesisPlan)
  let v ← flagProtected v channelId .protect
  return (v, genesisPlan.outcome)

theorem claimServer_genesis :
    claimServer ((View.of granted).claimGroupsFirst (isOpenTextGroupOf channelId)) channelId
      genesis .protect = .ok (claimed, some serverId) := by
  simp only [claimServer, claimProtectServer, bind_eq_ok, orRefuse_eq_ok, refuseIf_eq_ok,
    okOr_eq_ok]
  exact ⟨(claimed, serverId), ⟨(), by decide, serverId, rfl, genesisBody, parse_genesis,
    ⟨granted.servers, [serverId]⟩, rfl, (), by decide, (), by decide, (), by decide, rfl⟩, rfl⟩

theorem writeSeatList_genesis :
    writeSeatList primitives granted .protect channelId genesis true (seconds 1) =
      protectPlanned := by
  have hinp : granted.seatListWriteInput .protect channelId genesis true (seconds 1) =
      genesisInput := rfl
  have hpl : orRefuse (planSeatListWrite primitives genesisInput) = .ok (.apply genesisPlan) :=
    orRefuse_eq_ok.mpr plan_genesis
  unfold writeSeatList
  dsimp only
  rw [hinp, bind_of_eq_ok claimServer_genesis]
  rw [bind_of_eq_ok hpl]
  rfl

theorem attempt_protect {v : View} {outcome : SeatListWriteOutcome}
    (h : protectPlanned = .ok (v, outcome)) :
    attempt primitives protect granted = .ok ((v.store, v.keys), .seatList outcome) := by
  have hno : genesisReprotectAttempt granted channelId genesis = none := by decide
  have hatt : seatListWriteAttempt primitives granted .protect channelId genesis true
      (seconds 1) = .ok (v, outcome) := by
    unfold seatListWriteAttempt
    rw [if_pos rfl, hno, ← h]
    exact writeSeatList_genesis
  rw [attempt, protect, attemptView, hatt]
  rfl

set_option maxRecDepth 10000 in
theorem protect_planned : ∃ v outcome, protectPlanned = .ok (v, outcome) ∧
    uniqueIndexes (install v.keys v.store granted) = true ∧
    (install v.keys v.store granted).channelEntitlements.values = [entitlement] ∧
    DocKey.entitlement entitlement.id ∈ v.keys := by
  have hfac : protectPlanned.toOption.any (fun planned =>
      uniqueIndexes (install planned.1.keys planned.1.store granted) ∧
      (install planned.1.keys planned.1.store granted).channelEntitlements.values = [entitlement] ∧
      DocKey.entitlement entitlement.id ∈ planned.1.keys) = true := by
    decide
  cases h : protectPlanned with
  | error fail => exact absurd hfac (by simp [h, Except.toOption])
  | ok planned =>
    rw [h] at hfac
    exact ⟨planned.1, planned.2, rfl, of_decide_eq_true hfac⟩

/-- The database when both have read the grant. -/
def bothBegun : TxnDatabase where
  committed := granted
  active := ((∅ : Table Nat (Transaction Store DocKey Request)).insert 1 ⟨protect, granted, []⟩)
    |>.insert 2 ⟨lower, granted, []⟩
  log := [.upsertEntitlement entitlement 0]

theorem both_begin : execAll (exec primitives) (Database.idle store)
    [.begin 0 (.upsertEntitlement entitlement 0), .commit 0, .begin 1 protect, .begin 2 lower] =
      bothBegun := rfl

theorem entitlements_kept : database.committed.channelEntitlements.values = [entitlement] := by
  obtain ⟨v, outcome, hpla, huni, hval, hmem⟩ := protect_planned
  have hbeg : bothBegun.active.get 1 = some ⟨protect, granted, []⟩ := rfl
  have hprot : (exec primitives bothBegun (.commit 1)).1 =
      { committed := install v.keys v.store granted
        active := (∅ : Table Nat (Transaction Store DocKey Request)).insert 2
          ⟨lower, granted, v.keys ++ []⟩
        log := [protect, .upsertEntitlement entitlement 0] } :=
    Database.exec_commit_fresh hbeg (attempt_protect hpla) (by simp) huni
  have hlow : ∀ log, (exec primitives
      { committed := install v.keys v.store granted
        active := (∅ : Table Nat (Transaction Store DocKey Request)).insert 2
          ⟨lower, granted, v.keys ++ []⟩
        log := log } (.commit 2)).1.committed = install v.keys v.store granted := by
    intro log
    unfold exec
    rw [Database.exec_commit_conflict rfl rfl (mem_singleton.mpr rfl)
      (mem_append_left _ hmem)]
  have hbt := both_begin
  rw [execAll, execAll, execAll, execAll, execAll] at hbt
  rw [database, events, execAll, execAll, execAll, execAll, execAll, execAll, execAll,
    ← protect, ← lower, hbt, hprot, hlow]
  exact hval

end Race

/-- The cap is not lowered: the second grant and the list both wrote the entitlement. -/
theorem no_write_skew_race : Race.database.committed.channelEntitlements.values =
    [Sample.entitlement] ∧ SkewFree Sample.primitives Race.database :=
  ⟨Race.entitlements_kept, no_write_skew Race.unprotected (Run.of_admitsAll Race.admitted)⟩

end Txn
end SlogaBackend.Mls
