import SlogaBackend.Mls.TransactionEffects
import SlogaBackend.Mls.SlotCap

/-!
# Landings

What a transaction of `Mls.Transactions` does to the committed store when it lands.
`Landed` is one landing, collection by collection: the effect the transaction staged on
its snapshot, and for every collection how the committed rows before and after it relate
to what was staged.

The committed store before a landing is not the snapshot. A fact about a staged row
carries over to the committed rows in one of two ways: the row was written, then the
snapshot's row is the committed one, or it was not, then the landing leaves it alone.

`Consistent` is what the store keeps through every landing by itself.
-/

namespace SlogaBackend.Mls
namespace Txn

open Checks ReferenceDb

variable {prim : Primitives} {s before after : Store} {v : View} {now? : Option Timestamp}

/-! ## Consistent stores -/

/-- The open Text group of a channel carries the hash of the channel's list. -/
def Store.Binds (prim : Primitives) (s : Store) (channelId : String) (group : MlsGroup) : Prop :=
  ∃ list sha256, s.channelSeatLists.get channelId = some list ∧
    list.commitAdSha256 prim = .ok sha256 ∧ group.seatListAdSha256 = some sha256

variable {input : SeatListWriteInput} {plan : SeatListWritePlan}

/-- The rows sit under their ids, the indexed fields are unique, open Text groups are bound
to their channel's list, and a Text-marked commit sits under its group and epoch. -/
structure Consistent (prim : Primitives) (s : Store) : Prop where
  groups_keyed : ∀ k group, s.mlsGroups.get k = some group → group.id = k
  lists_keyed : ∀ k list, s.channelSeatLists.get k = some list → list.id = k
  entitlements_keyed : ∀ k entitlement, s.channelEntitlements.get k = some entitlement →
    entitlement.id = k
  seats : SeatsCoherent s.channelSeats
  entitlement_unique : ∀ {k k' entitlement entitlement'},
    s.channelEntitlements.get k = some entitlement →
    s.channelEntitlements.get k' = some entitlement' →
    entitlement.channelId = entitlement'.channelId → k = k'
  text_unique : ∀ {channelId k k' group group'}, s.mlsGroups.get k = some group →
    s.mlsGroups.get k' = some group' → isOpenTextGroupOf channelId group = true →
    isOpenTextGroupOf channelId group' = true → k = k'
  bound : ∀ {channelId k group}, s.mlsGroups.get k = some group →
    isOpenTextGroupOf channelId group = true → s.Binds prim channelId group
  marked : ∀ k document, s.mlsCommits.get k = some document → document.kind = some .text →
    k = MlsCommit.compositeId document.row.groupId document.row.epoch

namespace Consistent

theorem findEntitlement_get (h : Consistent prim s) {channelId : String}
    {entitlement : ChannelEntitlement} (hfn : s.findEntitlement channelId = some entitlement) :
    s.channelEntitlements.get entitlement.id = some entitlement := by
  obtain ⟨k, hg⟩ := mem_values.mp (mem_of_find?_eq_some hfn)
  rw [h.entitlements_keyed k entitlement hg]
  exact hg

theorem findOpenTextGroup_eq (h : Consistent prim s) {channelId k : String} {group : MlsGroup}
    (hg : s.mlsGroups.get k = some group) (hop : isOpenTextGroupOf channelId group = true) :
    (s.findOpenTextGroup channelId).map (·.id) = some k := by
  cases hfn : s.findOpenTextGroup channelId with
  | none => exact absurd hop (List.find?_eq_none.mp hfn group (mem_values_of_get hg))
  | some found =>
    obtain ⟨k', hg'⟩ := mem_values.mp (mem_of_find?_eq_some hfn)
    have hk := h.text_unique hg' hg (List.find?_some hfn) hop
    rw [map_some, h.groups_keyed k' found hg', hk]

theorem appliedPlan (h : Consistent prim s) (hwr : ListWritten prim s input plan v) :
    ∃ body, AppliedPlan prim input s.channelSeats body plan :=
  planSeatListWrite_apply h.seats hwr.input_seats hwr.planned

end Consistent

/-! ## What an effect leaves alone -/

/-- A group row and what a transaction other than a seat-list write makes of it. -/
structure SameGroup (old row : MlsGroup) : Prop where
  id_eq : row.id = old.id
  channel_eq : row.channelId = old.channelId
  kind_eq : row.kind = old.kind
  open_of : row.open_ = true → old.open_ = true
  hash_eq : row.seatListAdSha256 = old.seatListAdSha256

theorem SameGroup.refl (group : MlsGroup) : SameGroup group group :=
  ⟨rfl, rfl, rfl, fun h => h, rfl⟩

variable {old row : MlsGroup} {k : String}

theorem SameGroup.openText (h : SameGroup old row) {channelId : String}
    (hop : isOpenTextGroupOf channelId row = true) : isOpenTextGroupOf channelId old = true := by
  rw [isOpenTextGroupOf_iff] at hop ⊢
  exact ⟨h.channel_eq ▸ hop.1, h.open_of hop.2.1, h.kind_eq ▸ hop.2.2⟩

/-- Where a group row comes from, over the groups there were. -/
inductive GroupSource (prim : Primitives) (s : Store) (v : View) (groups : Table String MlsGroup)
    (k : String) (row : MlsGroup) : Prop where
  | same {old : MlsGroup} : groups.get k = some old → SameGroup old row →
      GroupSource prim s v groups k row
  | created {group : MlsGroup} {list : SeatList} : k = row.id →
      GroupCreated prim s group row list v → GroupSource prim s v groups k row
  | bound {input : SeatListWriteInput} {plan : SeatListWritePlan} {old : MlsGroup} :
      ListWritten prim s input plan v → groups.get k = some old → row = bindList plan old →
      isOpenTextGroupOf input.channelId old = true → GroupSource prim s v groups k row

theorem get_modifyGroup {groups : Table String MlsGroup} {f : MlsGroup → MlsGroup}
    {id : Option String} : (modifyGroup groups f id).get k =
      if id = some k then (groups.get k).map f else groups.get k := by
  cases id with
  | none => simp [modifyGroup]
  | some id =>
    rw [modifyGroup, get_modify]
    by_cases hk : k = id
    · rw [if_pos hk, if_pos (by rw [hk])]
    · rw [if_neg hk, if_neg fun heq => hk (some.inj heq).symm]

theorem ListWritten.group (hs : Consistent prim s) (h : ListWritten prim s input plan v)
    (hg : v.mlsGroups.rows.get k = some row) : GroupSource prim s v s.mlsGroups k row := by
  rw [h.groups, get_modifyGroup] at hg
  split at hg
  · rename_i hfnd
    obtain ⟨old, hold, rfl⟩ := map_eq_some_iff.mp hg
    obtain ⟨found, hfn, hid⟩ := map_eq_some_iff.mp hfnd
    obtain ⟨k', hg'⟩ := mem_values.mp (mem_of_find?_eq_some hfn)
    rw [← hid, hs.groups_keyed k' found hg', hg'] at hold
    refine .bound h ?_ rfl ?_
    · rw [← hid, hs.groups_keyed k' found hg', hg', hold]
    · rw [← some.inj hold]
      exact List.find?_some hfn
  · exact .same hg (.refl row)

section

variable (h : Effect prim s now? v) (hs : Consistent prim s)
include h hs

theorem Effect.group (hg : v.mlsGroups.rows.get k = some row) :
    GroupSource prim s v s.mlsGroups k row := by
  cases h with
  | same h =>
    rw [h.mlsGroups] at hg
    exact .same hg (.refl row)
  | granted _ h =>
    rw [h.groups] at hg
    exact .same hg (.refl row)
  | listed _ h => exact h.group hs hg
  | @created group prepared list h =>
    by_cases hk : k = prepared.id
    · have hrow : row = prepared := by
        rw [hk, h.group_get] at hg
        exact (some.inj hg).symm
      rw [hrow]
      exact .created hk h
    · obtain ⟨old, hold, rfl | rfl⟩ := h.groups k row hk hg
      · exact .same hold (.refl row)
      · exact .same hold ⟨rfl, rfl, rfl, fun hop => absurd hop (by simp [supersede]), rfl⟩
  | released h =>
    obtain ⟨old, hold, rfl | ⟨userId, now, rfl⟩⟩ := h.groups k row hg
    · exact .same hold (.refl row)
    · exact .same hold ⟨rfl, rfl, rfl, fun hop => hop, rfl⟩
  | deleted h =>
    rw [h.groups, get_retain_eq_some] at hg
    exact .same hg.1 (.refl row)
  | @committed commit group list signed plan h =>
    rw [h.groups, get_insert] at hg
    split at hg
    · rename_i hk
      rw [← some.inj hg, hk]
      exact .same h.group_get ⟨rfl, rfl, rfl, fun hop => hop, rfl⟩
    · exact .same hg (.refl row)

variable {channelId : String}

/-- The list of a channel changes when it is written, or with the channel's data. -/
theorem Effect.of_list_changed
    (hchan : v.channelSeatLists.rows.get channelId ≠ s.channelSeatLists.get channelId) :
    (∃ input plan, ListWritten prim s input plan v ∧ input.channelId = channelId) ∨
      ChannelDeleted s channelId v := by
  cases h with
  | same h => exact absurd (by rw [h.channelSeatLists]) hchan
  | granted _ h | created h | released h | committed h => exact absurd (by rw [h.lists]) hchan
  | @listed input plan _ h =>
    refine .inl ⟨input, plan, h, ?_⟩
    by_contra hne
    obtain ⟨body, happ⟩ := hs.appliedPlan h
    exact hchan (by rw [h.lists, get_insert, happ.row_id, if_neg (Ne.symm hne)])
  | @deleted channelId' h =>
    refine .inr ?_
    by_cases hcha : channelId = channelId'
    · exact hcha ▸ h
    · exact absurd (by rw [h.lists, if_neg hcha]) hchan

/-- **A list that changes takes its open Text group with it.** Whoever writes the list of a
channel writes every Text group that is open there. -/
theorem Effect.group_written_of_list (hsnd : v.Sound s)
    (hchan : v.channelSeatLists.rows.get channelId ≠ s.channelSeatLists.get channelId)
    {group : MlsGroup} (hg : s.mlsGroups.get k = some group)
    (hop : isOpenTextGroupOf channelId group = true) : k ∈ v.mlsGroups.written := by
  rcases h.of_list_changed hs hchan with ⟨input, plan, h, rfl⟩ | h
  · exact h.groups_written k group hg hop
  · by_contra hout
    have hkp := hsnd.mlsGroups k hout
    rw [hg, h.groups, get_retain_eq_some] at hkp
    obtain ⟨hch, -, hkn⟩ := isOpenTextGroupOf_iff.mp hop
    exact absurd hkp.2 (by simp [isTextGroupOf, hch, hkn])

/-- An open Text group that outlives a change of its list is bound to the new one. -/
theorem Effect.bound_of_list
    (hchan : v.channelSeatLists.rows.get channelId ≠ s.channelSeatLists.get channelId)
    (hold : s.mlsGroups.get k = some old) (hop : isOpenTextGroupOf channelId old = true)
    (hg : v.mlsGroups.rows.get k = some row) :
    ∃ list sha256, v.channelSeatLists.rows.get channelId = some list ∧
      list.commitAdSha256 prim = .ok sha256 ∧ row.seatListAdSha256 = some sha256 := by
  rcases h.of_list_changed hs hchan with ⟨input, plan, h, rfl⟩ | h
  · obtain ⟨body, happ⟩ := hs.appliedPlan h
    rw [h.groups, get_modifyGroup, hs.findOpenTextGroup_eq hold hop, if_pos rfl, hold,
      map_some, some.injEq] at hg
    refine ⟨plan.row, plan.seatListAdSha256, ?_, happ.hash_eq, ?_⟩
    · rw [h.lists, get_insert, happ.row_id, if_pos rfl]
    · rw [← hg]
      rfl
  · rw [h.groups, get_retain_eq_some, hold] at hg
    obtain ⟨hch, -, hkn⟩ := isOpenTextGroupOf_iff.mp hop
    rw [← some.inj hg.1] at hg
    exact absurd hg.2 (by simp [isTextGroupOf, hch, hkn])

end

theorem countedKeys_of_claimed_nil {t : Table String ChannelSeat} (ht : SeatsCoherent t)
    {body : SeatListBody}
    (happ : AppliedPlan prim input t body plan) (hnil : plan.claimed = []) (channelId : String)
    (time : Timestamp) :
    countedKeys (t.insertAll (·.id) plan.seatRows) channelId time ⊆
      countedKeys t channelId time := by
  intro k hk
  obtain ⟨seat, hg, hch, hcoun⟩ := mem_countedKeys.mp hk
  rcases get_insertAll_cases hg with ⟨hmem, rfl⟩ | ⟨hold, -⟩
  · have hrow := happ.rows_planned seat hmem
    rcases hrow.change with ⟨-, hact, -⟩ | ⟨-, -, old, hold, hact⟩
    · exact absurd hact (happ.inactive_of_claimed_nil hnil seat hmem)
    · rw [← hch, hrow.channel_eq]
      have hcha := (ht.of_get happ.channel_ulid hold).1
      rw [← hrow.id_eq] at hold
      exact mem_countedKeys.mpr ⟨old, hold, hcha, ChannelSeat.countsAgainstCap_of_isActive hact _⟩
  · exact mem_countedKeys.mpr ⟨seat, hold, hch, hcoun⟩

section

variable (h : Effect prim s now? v)
include h

/-- **Only a list that seats somebody takes slots.** -/
theorem Effect.counted (hs : Consistent prim s) (channelId : String) :
    (∀ time, countedKeys v.channelSeats.rows channelId time ⊆
      countedKeys s.channelSeats channelId time) ∨
    ∃ input plan, now? = some input.now ∧ ListWritten prim s input plan v ∧ plan.claimed ≠ [] ∧
      input.channelId = channelId := by
  cases h with
  | same h => exact .inl fun time => by rw [h.channelSeats]
  | granted _ h | created h | committed h => exact .inl fun time => by rw [h.seats]
  | @listed input plan hnow h =>
    obtain ⟨body, happ⟩ := hs.appliedPlan h
    by_cases hnil : plan.claimed = []
    · refine .inl fun time => ?_
      rw [h.seats]
      exact countedKeys_of_claimed_nil hs.seats happ hnil channelId time
    · by_cases hcha : channelId = input.channelId
      · exact .inr ⟨input, plan, hnow, h, hnil, hcha.symm⟩
      · refine .inl fun time => ?_
        rw [h.seats]
        exact countedKeys_applied_of_ne happ hcha time
  | released h =>
    refine .inl fun time k hk => ?_
    obtain ⟨seat, hg, hch, hcoun⟩ := mem_countedKeys.mp hk
    rcases h.seats k with hsm | ⟨old, now, cooldownUntil, hold, hact, hnew⟩
    · exact mem_countedKeys.mpr ⟨seat, hsm ▸ hg, hch, hcoun⟩
    · rw [hnew] at hg
      rw [← some.inj hg] at hch
      exact mem_countedKeys.mpr ⟨old, hold, hch, ChannelSeat.countsAgainstCap_of_isActive hact _⟩
  | deleted h =>
    refine .inl fun time k hk => ?_
    obtain ⟨seat, hg, hrs⟩ := mem_countedKeys.mp hk
    rw [h.seats, get_retain_eq_some] at hg
    exact mem_countedKeys.mpr ⟨seat, hg.1, hrs⟩

theorem Effect.seatsCoherent (hs : Consistent prim s) : SeatsCoherent v.channelSeats.rows := by
  cases h with
  | same h => exact h.channelSeats ▸ hs.seats
  | granted _ h | created h | committed h => exact h.seats ▸ hs.seats
  | listed _ h =>
    obtain ⟨body, happ⟩ := hs.appliedPlan h
    rw [h.seats]
    exact happ.seatsCoherent hs.seats
  | released h =>
    intro k seat hg
    rcases h.seats k with hsm | ⟨old, now, cooldownUntil, hold, -, hnew⟩
    · exact hs.seats k seat (hsm ▸ hg)
    · rw [hnew] at hg
      rw [← some.inj hg]
      exact hs.seats k old hold
  | deleted h =>
    intro k seat hg
    rw [h.seats, get_retain_eq_some] at hg
    exact hs.seats k seat hg.1

theorem Effect.listsKeyed (hs : Consistent prim s) {list : SeatList}
    (hg : v.channelSeatLists.rows.get k = some list) : list.id = k := by
  cases h with
  | same h => exact hs.lists_keyed k list (h.channelSeatLists ▸ hg)
  | granted _ h | created h | released h | committed h => exact hs.lists_keyed k list (h.lists ▸ hg)
  | listed _ h =>
    rw [h.lists, get_insert] at hg
    split at hg
    · rename_i hk
      rw [← some.inj hg, hk]
    · exact hs.lists_keyed k list hg
  | deleted h =>
    rw [h.lists] at hg
    split at hg
    · cases hg
    · exact hs.lists_keyed k list hg

theorem Effect.entitlement {entitlement : ChannelEntitlement}
    (hg : v.channelEntitlements.rows.get k = some entitlement) :
    s.channelEntitlements.get k = some entitlement ∨
      ∃ now, now? = some now ∧ EntitlementWritten s now entitlement v ∧ k = entitlement.id := by
  cases h with
  | same h => exact .inl (h.channelEntitlements ▸ hg)
  | created h | released h | committed h | listed _ h => exact .inl (h.entitlements ▸ hg)
  | deleted h =>
    rw [h.entitlements, get_retain_eq_some] at hg
    exact .inl hg.1
  | @granted now stored hnow h =>
    rw [h.entitlements, get_insert] at hg
    split at hg
    · rename_i hk
      cases hg
      exact .inr ⟨now, hnow, h, hk⟩
    · exact .inl hg

theorem Effect.commit {document : StoredCommit} (hg : v.mlsCommits.rows.get k = some document) :
    s.mlsCommits.get k = some document ∨
      k = MlsCommit.compositeId document.row.groupId document.row.epoch := by
  cases h with
  | same h => exact .inl (h.mlsCommits ▸ hg)
  | granted _ h | listed _ h | released h => exact .inl (h.commits ▸ hg)
  | created h | deleted h => exact .inl (h.commits k document hg)
  | committed h =>
    obtain ⟨_, _, _, _, hacc⟩ := h.accepted
    rcases h.commits k document hg with hold | ⟨hk, rfl⟩
    · exact .inl hold
    · rw [hacc.stored_eq]
      exact .inr hk

end

/-! ## Landings, collection by collection -/

/-- A landing of a transaction that staged `v` on the snapshot `s`. -/
structure Landed (prim : Primitives) (now? : Option Timestamp) (s : Store) (v : View)
    (before after : Store) : Prop where
  sound : v.Sound s
  effect : Effect prim s now? v
  entitlements : v.channelEntitlements.Lands s.channelEntitlements before.channelEntitlements
    after.channelEntitlements
  lists : v.channelSeatLists.Lands s.channelSeatLists before.channelSeatLists after.channelSeatLists
  seats : v.channelSeats.Lands s.channelSeats before.channelSeats after.channelSeats
  groups : v.mlsGroups.Lands s.mlsGroups before.mlsGroups after.mlsGroups
  commits : v.mlsCommits.Lands s.mlsCommits before.mlsCommits after.mlsCommits
  indexed : uniqueIndexes after = true

abbrev InFlight := Transaction Store DocKey Request

abbrev LandingOf (prim : Primitives) (txn : InFlight) (view : Store) (keys : List DocKey)
    (answer : Response) (before after : Store) : Prop :=
  Database.Landing documents (attempt prim) uniqueIndexes txn view keys answer before after

section Collections

variable {txn : InFlight} {view : Store} {keys : List DocKey} {answer : Response}

theorem lands_of_landing {κ V : Type} [DecidableEq κ] {staged : Staged κ V}
    {collection : Store → Table κ V} {key : κ → DocKey}
    (h : LandingOf prim txn view keys answer before after)
    (hfram : Database.Framed documents txn before) (hsnd : staged.Sound (collection txn.snapshot))
    (hky : ∀ k, key k ∈ keys ↔ k ∈ staged.written)
    (hrd : ∀ k store store', read (key k) store = read (key k) store' ↔
      (collection store).get k = (collection store').get k)
    (hvw : ∀ k, (collection view).get k = staged.rows.get k) :
    staged.Lands (collection txn.snapshot) (collection before) (collection after) := by
  intro k
  by_cases hk : k ∈ staged.written
  · have hmem := (hky k).mpr hk
    refine .inr ⟨hk, ?_, ?_⟩
    · exact ((hrd k _ _).mp (h.read_snapshot hfram hmem)).symm
    · rw [← hvw]
      exact (hrd k _ _).mp (h.read_of_mem hmem)
  · have hout : key k ∉ keys := fun hmem => hk ((hky k).mp hmem)
    exact .inl ⟨(hrd k _ _).mp (h.read_of_notMem hout), hsnd k hk, hk⟩

/-- **A landing, collection by collection.** -/
theorem landed_of_landing (h : LandingOf prim txn view keys answer before after)
    (hfram : Database.Framed documents txn before) :
    ∃ v : View, keys = v.keys ∧ Landed prim txn.request.now? txn.snapshot v before after := by
  obtain ⟨⟨v, answer'⟩, hatt, heq⟩ := map_eq_ok.mp h.attempted
  obtain ⟨hstag, -⟩ := Prod.mk.inj heq
  cases hstag
  obtain ⟨hsnd, heff⟩ := effect_of_attempt hatt
  refine ⟨v, rfl, ?_⟩
  exact {
    sound := hsnd
    effect := heff
    entitlements := lands_of_landing h hfram hsnd.channelEntitlements
      (fun _ => v.entitlement_mem_keys) (fun _ _ _ => Iff.rfl) fun _ => rfl
    lists := lands_of_landing h hfram hsnd.channelSeatLists
      (fun _ => v.seatList_mem_keys) (fun _ _ _ => Iff.rfl) fun _ => rfl
    seats := lands_of_landing h hfram hsnd.channelSeats
      (fun _ => v.seat_mem_keys) (fun _ _ _ => Iff.rfl) fun _ => rfl
    groups := lands_of_landing h hfram hsnd.mlsGroups
      (fun _ => v.group_mem_keys) (fun _ _ _ => Iff.rfl) fun _ => rfl
    commits := lands_of_landing h hfram hsnd.mlsCommits
      (fun _ => v.commit_mem_keys) (fun _ _ _ => Iff.rfl) fun _ => rfl
    indexed := h.indexed }

end Collections

namespace Landed

section

variable (h : Landed prim now? s v before after)
include h

theorem group (hs : Consistent prim s) {k : String}
    {row : MlsGroup} (hg : after.mlsGroups.get k = some row) :
    GroupSource prim s v before.mlsGroups k row := by
  rcases h.groups.get_cases k with hkp | ⟨hbef, haft⟩
  · exact .same (hkp ▸ hg) (.refl row)
  · rw [haft] at hg
    cases h.effect.group hs hg with
    | same hold hsm => exact .same (hbef.trans hold) hsm
    | created hk hcreat => exact .created hk hcreat
    | bound hlst hold hrow hop => exact .bound hlst (hbef.trans hold) hrow hop

theorem entitlement_unique {k k' : String} {entitlement entitlement' : ChannelEntitlement}
    (hg : after.channelEntitlements.get k = some entitlement)
    (hg' : after.channelEntitlements.get k' = some entitlement')
    (hcha : entitlement.channelId = entitlement'.channelId) : k = k' := by
  have hind := h.indexed
  rw [uniqueIndexes, and_eq_true, decide_eq_true_eq] at hind
  refine Table.key_eq_of_nodup (p := fun _ => true) ?_ hg hg' rfl rfl hcha
  rw [List.filter_true]
  exact hind.1

variable {channelId : String}

theorem text_unique {k k' : String} {group group' : MlsGroup}
    (hg : after.mlsGroups.get k = some group) (hg' : after.mlsGroups.get k' = some group')
    (hop : isOpenTextGroupOf channelId group = true)
    (hop' : isOpenTextGroupOf channelId group' = true) : k = k' := by
  have hind := h.indexed
  rw [uniqueIndexes, and_eq_true, decide_eq_true_eq, decide_eq_true_eq] at hind
  rw [isOpenTextGroupOf_iff] at hop hop'
  refine Table.key_eq_of_nodup hind.2 hg hg' hop.2.1 hop'.2.1 ?_
  rw [hop.1, hop.2.2, hop'.1, hop'.2.2]

theorem list_get (hsm : v.channelSeatLists.rows = s.channelSeatLists) (channelId : String) :
    after.channelSeatLists.get channelId = before.channelSeatLists.get channelId :=
  h.lists.get_eq (by rw [hsm])

variable {time : Timestamp}

theorem counted_subset (hsub : countedKeys v.channelSeats.rows channelId time ⊆
      countedKeys s.channelSeats channelId time) : countedKeys after.channelSeats channelId time ⊆
      countedKeys before.channelSeats channelId time := by
  intro k hk
  obtain ⟨seat, hg, hcoun⟩ := mem_countedKeys.mp hk
  rcases h.seats.get_cases k with hkp | ⟨hbef, haft⟩
  · exact mem_countedKeys.mpr ⟨seat, hkp ▸ hg, hcoun⟩
  · rw [haft] at hg
    obtain ⟨old, hold, hcnt⟩ := mem_countedKeys.mp (hsub (mem_countedKeys.mpr ⟨seat, hg, hcoun⟩))
    exact mem_countedKeys.mpr ⟨old, hbef.trans hold, hcnt⟩

theorem counted_subset_staged (hsub : countedKeys before.channelSeats channelId time ⊆
      countedKeys s.channelSeats channelId time) : countedKeys after.channelSeats channelId time ⊆
      countedKeys v.channelSeats.rows channelId time := by
  intro k hk
  obtain ⟨seat, hg, hcoun⟩ := mem_countedKeys.mp hk
  rcases h.seats k with ⟨hkp, hstag, -⟩ | ⟨-, -, haft⟩
  · obtain ⟨old, hold, hcnt⟩ := mem_countedKeys.mp (hsub (mem_countedKeys.mpr
      ⟨seat, hkp ▸ hg, hcoun⟩))
    exact mem_countedKeys.mpr ⟨old, hstag.trans hold, hcnt⟩
  · exact mem_countedKeys.mpr ⟨seat, haft ▸ hg, hcoun⟩

theorem seatsCoherent (hs : Consistent prim s)
    (hb : Consistent prim before) : SeatsCoherent after.channelSeats := by
  intro k seat hg
  rcases h.seats.get_cases k with hkp | ⟨-, haft⟩
  · exact hb.seats k seat (hkp ▸ hg)
  · exact h.effect.seatsCoherent hs k seat (haft ▸ hg)

theorem listsKeyed (hs : Consistent prim s) (hb : Consistent prim before) :
    ∀ k list, after.channelSeatLists.get k = some list → list.id = k := by
  intro k list hg
  rcases h.lists.get_cases k with hkp | ⟨-, haft⟩
  · exact hb.lists_keyed k list (hkp ▸ hg)
  · exact h.effect.listsKeyed hs (haft ▸ hg)

theorem entitlement {k : String} {entitlement : ChannelEntitlement}
    (hg : after.channelEntitlements.get k = some entitlement) :
    before.channelEntitlements.get k = some entitlement ∨
      ∃ now, now? = some now ∧ EntitlementWritten s now entitlement v ∧ k = entitlement.id := by
  rcases h.entitlements.get_cases k with hkp | ⟨hbef, haft⟩
  · exact .inl (hkp ▸ hg)
  · rcases h.effect.entitlement (haft ▸ hg) with hold | hwr
    · exact .inl (hbef.trans hold)
    · exact .inr hwr

theorem marked (hb : Consistent prim before) :
    ∀ k document, after.mlsCommits.get k = some document → document.kind = some .text →
      k = MlsCommit.compositeId document.row.groupId document.row.epoch := by
  intro k document hg hkn
  rcases h.commits.get_cases k with hkp | ⟨hbef, haft⟩
  · exact hb.marked k document (hkp ▸ hg) hkn
  · rcases h.effect.commit (haft ▸ hg) with hold | hkey
    · exact hb.marked k document (hbef.trans hold) hkn
    · exact hkey

theorem groupsKeyed (hs : Consistent prim s) (hb : Consistent prim before) :
    ∀ k group, after.mlsGroups.get k = some group → group.id = k := by
  intro k group hg
  cases h.group hs hg with
  | same hold hsm => rw [hsm.id_eq, hb.groups_keyed k _ hold]
  | created hk _ => exact hk.symm
  | bound _ hold hrow _ =>
    have hid := hb.groups_keyed k _ hold
    rw [hrow]
    exact hid

end

end Landed

end Txn
end SlogaBackend.Mls
