import SlogaBackend.Mls.Coherence

/-!
# Seating safety

Whoever has a device in an open Text group is seated and listed, or is a pending
removal. Membership, seat rows, the signed list and the pending removals live in
four collections, and nothing but the operations keeps them together.

The proof goes by the five ways an open Text group comes about
(`OpenTextStep`). A list that drops a user makes the user pending, because the
user was active before; a release makes the user pending in exactly the channels
where it frees the seat; a commit adds only seated and listed users and clears only
pending entries without a device; and a created group starts with the list's signer,
whom the list names and the route found seated.
-/

namespace SlogaBackend.Mls

open Checks ReferenceDb

variable {prim : Primitives} {db next : ReferenceDb} {op : Op}

/-- The user is named in the channel's stored list. -/
def Listed (db : ReferenceDb) (channelId userId : String) : Prop :=
  ∃ list body, db.channelSeatLists.get channelId = some list ∧
    SeatListBody.parse list.body = .ok body ∧ userId ∈ body.seats

/-- The user holds an active seat of the channel and is named in its list. -/
def SeatedAndListed (db : ReferenceDb) (channelId userId : String) : Prop :=
  ActiveAt db.channelSeats channelId userId ∧ Listed db channelId userId

/-- Every user with a device in an open Text group is seated and listed, or is a
pending removal of the group. -/
def SeatingSafe (db : ReferenceDb) : Prop :=
  ∀ k group, db.mlsGroups.get k = some group → group.open_ = true → group.kind = .text →
    ∀ member ∈ group.members, SeatedAndListed db group.channelId member.userId ∨
      ∃ pending ∈ group.pendingRemovals, pending.userId = member.userId

/-- The route's guard: a Text group is created for a creator who holds an active seat. -/
def CreatorSeated (db : ReferenceDb) (op : Op) : Prop :=
  ∀ group supersedes, op = .createTextMlsGroup group supersedes →
    db.requireSeated group.channelId group.createdBy.userId = .ok ()

variable {c u : String} {group : MlsGroup} {member : MlsMemberDevice}

theorem activeAt_of_requireSeated (hs : SeatsCoherent db.channelSeats)
    (h : db.requireSeated c u = .ok ()) : ActiveAt db.channelSeats c u := by
  rw [requireSeated, refuseIf_eq_ok, Bool.not_eq_false, any_eq_true] at h
  obtain ⟨seat, hmem, hcn⟩ := h
  simp only [and_eq_true, beq_iff_eq] at hcn
  obtain ⟨⟨hch, hu⟩, hact⟩ := hcn
  rw [fetchChannelSeatsForUser, List.mem_insertionSort, mem_filter] at hmem
  obtain ⟨k, hget⟩ := mem_values.mp hmem.1
  obtain ⟨hk, hid, -⟩ := hs k seat hget
  refine ⟨seat, ?_, hact⟩
  rw [← hch, ← hu, ← hid, ← hk]
  exact hget

theorem SeatedAndListed.of_frame (h : SeatedAndListed db c u) (hf : ChannelFrame db next c)
    : SeatedAndListed next c u := by
  obtain ⟨hact, list, body, hls, hprs, hmem⟩ := h
  exact ⟨(hf.active_iff u).mpr hact, list, body, hf.list_eq.trans hls, hprs, hmem⟩

/-- The users a store plan drops were active or listed, so a seated user dropped by a
new list is made pending. -/
theorem seatingSafe_bound {input : SeatListWriteInput} {plan : SeatListWritePlan}
    {body : SeatListBody} (happ : AppliedPlan prim input db.channelSeats body plan)
    (hgr : input.textGroup = some group) (hch : group.channelId = input.channelId)
    (hls : next.channelSeatLists.get group.channelId = some plan.row)
    (hacti : ∀ u, ActiveAt next.channelSeats group.channelId u ↔ u ∈ body.seats)
    (hmb : ∃ member ∈ group.members, member.userId = u)
    (hold : SeatedAndListed db group.channelId u ∨
      ∃ pending ∈ group.pendingRemovals, pending.userId = u) :
    SeatedAndListed next group.channelId u ∨
      ∃ pending ∈ (bindList plan group).pendingRemovals, pending.userId = u := by
  by_cases hin : u ∈ body.seats
  · refine .inl ⟨(hacti u).mpr hin, plan.row, body, hls, ?_, hin⟩
    rw [happ.row_body]
    exact happ.parsed
  · rcases hold with ⟨hact, -⟩ | ⟨pending, hmem, hu⟩
    · -- the user was active and is dropped: the plan adds an entry, unless there is one
      by_cases hpn : group.hasPendingRemoval u = true
      · obtain ⟨pending, hmem, hu⟩ := MlsGroup.hasPendingRemoval_iff.mp hpn
        exact .inr ⟨pending, mem_append_left _ hmem, hu⟩
      · rw [hch] at hact
        obtain ⟨pending, hmem, hu⟩ := (happ.pending_iff group hgr u).mpr
          ⟨hin, .inl hact, hmb, by simpa using hpn⟩
        exact .inr ⟨pending, mem_append_right _ hmem, hu⟩
    · exact .inr ⟨pending, mem_append_left _ hmem, hu⟩

theorem seatingSafe_committed {commit : MlsCommit} {adSha256 : String} {list : SeatList}
    {signed : SeatListBody} {plan : MlsTextCommitPlan}
    (hls : db.channelSeatLists.get group.channelId = some list)
    (hacc : TextCommitAccepted group commit adSha256 list signed
      (db.storedIntentsFor group commit.removed) (db.revokedIdentitiesFor commit.removed)
      (db.activeSeatUsersFor group.channelId commit.added) plan)
    (hold : ∀ member ∈ group.members, SeatedAndListed db group.channelId member.userId ∨
      ∃ pending ∈ group.pendingRemovals, pending.userId = member.userId)
    (hmb : member ∈ plan.members) : SeatedAndListed db group.channelId member.userId ∨
      ∃ pending ∈ (applyTextCommit group commit plan).pendingRemovals,
        pending.userId = member.userId := by
  have hmem := hmb
  rw [hacc.members_eq, mem_applyDelta] at hmem
  rcases hmem with ⟨hsta, -⟩ | hadd
  · refine (hold member hsta).imp_right fun ⟨pending, hp, hu⟩ => ⟨pending, ?_, hu⟩
    -- the entry stays, since its user still has a device
    refine mem_filter.mpr ⟨hp, ?_⟩
    rw [not_eq_true', List.contains_eq_mem, decide_eq_false_iff_not, hacc.cleared_eq]
    intro hclear
    obtain ⟨pending', hp', hu'⟩ := mem_map.mp hclear
    rw [mem_filter, not_eq_true', List.any_eq_false] at hp'
    exact hp'.2 member hmb (by rw [hu', hu, beq_self_eq_true])
  · obtain ⟨-, hacti, hsea⟩ := hacc.adds member hadd
    obtain ⟨device, hdev, hu⟩ := mem_map.mp hacti
    rw [mem_filter, Option.any_eq_true] at hdev
    obtain ⟨-, seat, hst, hact⟩ := hdev
    exact .inl ⟨⟨seat, by rw [← hu]; exact hst, hact⟩, list, signed, hls, hacc.parsed, hsea⟩

/-- A release leaves an entry wherever it frees a seat of a user with a device. -/
theorem seatingSafe_released {userId : String} {serverId : Option String} {now : Timestamp}
    (hon : group.open_ = true) (htx : group.kind = .text)
    (hls : next.channelSeatLists.get group.channelId = db.channelSeatLists.get group.channelId)
    (hacti : ∀ u, u ≠ userId ∨ db.inScope serverId group.channelId = false →
      (ActiveAt next.channelSeats group.channelId u ↔ ActiveAt db.channelSeats group.channelId u))
    (hmb : member ∈ group.members) (hold : SeatedAndListed db group.channelId member.userId ∨
      ∃ pending ∈ group.pendingRemovals, pending.userId = member.userId) :
    SeatedAndListed next group.channelId member.userId ∨
      ∃ pending ∈ (if db.pendsRemoval userId serverId group then pushPending userId now group
        else group).pendingRemovals, pending.userId = member.userId := by
  have hkp : ∀ pending ∈ group.pendingRemovals,
      pending ∈ (if db.pendsRemoval userId serverId group then pushPending userId now group
        else group).pendingRemovals := by
    intro pending hp
    by_cases hpen : db.pendsRemoval userId serverId group = true
    · rw [if_pos hpen]
      exact mem_append_left _ hp
    · rw [if_neg hpen]
      exact hp
  rcases hold with ⟨hact, list, body, hget, hprs, hin⟩ | ⟨pending, hp, hu⟩
  · by_cases hoth : member.userId ≠ userId ∨ db.inScope serverId group.channelId = false
    · exact .inl ⟨(hacti _ hoth).mpr hact, list, body, hls.trans hget, hprs, hin⟩
    · rw [not_or, not_not, Bool.not_eq_false] at hoth
      obtain ⟨huse, hscop⟩ := hoth
      refine .inr ?_
      by_cases hpn : group.hasPendingRemoval userId = true
      · obtain ⟨pending, hp, hu⟩ := MlsGroup.hasPendingRemoval_iff.mp hpn
        exact ⟨pending, hkp pending hp, hu.trans huse.symm⟩
      · have hdev : (group.members.any fun m => m.userId == userId) = true :=
          any_eq_true.mpr ⟨member, hmb, by rw [huse, beq_self_eq_true]⟩
        have hpen : db.pendsRemoval userId serverId group = true := by
          simp [pendsRemoval, hon, htx, hscop, hdev, hpn]
        rw [if_pos hpen]
        exact ⟨⟨userId, now⟩, mem_append_right _ mem_cons_self, huse.symm⟩
  · exact .inr ⟨pending, hkp pending hp, hu⟩

theorem seatingSafe_step (h : Step prim db op next) (hc : Coherent prim db)
    (hsea : CreatorSeated db op) (hi : SeatingSafe db) : SeatingSafe next := by
  intro k g hget hon htx member hmb
  cases h.openText hc hget hon htx with
  | kept hold hfram => exact (hi k g hold hon htx member hmb).imp_left fun hs => hs.of_frame hfram
  | @bound _ input plan body group hop happ hgr hold hls hacti =>
    have hch : group.channelId = input.channelId := by
      have hrd := (readsChannel_of_seatListInput hop).textGroup_eq
      rw [hgr] at hrd
      exact (openTextGroup_eq_some hc.groups_keyed hrd.symm).2.1
    exact seatingSafe_bound happ hgr hch hls hacti ⟨member, hmb, rfl⟩
      (hi _ group hold hon htx member hmb)
  | @created group _ supersedes list squat hcr hfram =>
    have hpr := hcr.is_prepared
    rw [hpr.members_eq, mem_singleton] at hmb
    rw [hmb]
    have hact := activeAt_of_requireSeated hc.seats (hsea _ _ rfl)
    rw [← hpr.channel_eq, ← hpr.creator_eq] at hact
    obtain ⟨body, hprs, -, hsig, -⟩ := (hc.lists _ _ hcr.list_get).parsed
    have hlst : Listed db g.channelId g.createdBy.userId := by
      refine ⟨list, body, by rw [hpr.channel_eq]; exact hcr.list_get, hprs, ?_⟩
      rw [hpr.signer_user, ← hsig]
      exact (SeatListBody.valid_of_parse hprs).signer_mem
    exact .inl (SeatedAndListed.of_frame ⟨hact, hlst⟩ hfram)
  | @released userId _ serverId now group hold hls hacti =>
    have hsm : (if db.pendsRemoval userId serverId group then pushPending userId now group
        else group).open_ = group.open_ ∧ (if db.pendsRemoval userId serverId group then
          pushPending userId now group else group).kind = group.kind ∧
        (if db.pendsRemoval userId serverId group then pushPending userId now group
          else group).members = group.members ∧
        (if db.pendsRemoval userId serverId group then pushPending userId now group
          else group).channelId = group.channelId := by
      split
      · exact ⟨rfl, rfl, rfl, rfl⟩
      · exact ⟨rfl, rfl, rfl, rfl⟩
    rw [hsm.1] at hon
    rw [hsm.2.1] at htx
    rw [hsm.2.2.1] at hmb
    rw [hsm.2.2.2]
    exact seatingSafe_released hon htx hls hacti hmb (hi k group hold hon htx member hmb)
  | @committed commit adSha256 cap group list signed plan hold hls hacc hfram =>
    exact (seatingSafe_committed hls hacc
      (hi _ group hold hacc.is_open hacc.kind_text) hmb).imp_left fun hs => hs.of_frame hfram

/-- **Seating safety.** In every store reachable from the empty one, by any calls with
any arguments in which Text groups are created for seated creators, every user with a
device in an open Text group holds an active seat of the channel and is named in its
newest list, or has a pending removal on the group. -/
theorem seating_safety (h : Reachable (exec prim) CreatorSeated .empty db) : SeatingSafe db := by
  have hboth : Coherent prim db ∧ SeatingSafe db := by
    refine h.invariant (P := fun s => Coherent prim s ∧ SeatingSafe s)
      (fun s op hop hs => ⟨coherent_exec op hs.1, ?_⟩)
      ⟨coherent_empty prim, fun k g hg => absurd hg (by simp [ReferenceDb.empty])⟩
    exact seatingSafe_step (step_exec prim s op) hs.1 hop hs.2
  exact hboth.2

open Sample

theorem admitted_reachable : Reachable (exec primitives) CreatorSeated .empty
    admittedStore := by
  have hprot : Reachable (exec primitives) CreatorSeated .empty protectedStore := by
    rw [← protect_run]
    refine Reachable.of_admitsAll ⟨?_, ?_, ?_, trivial⟩
    all_goals exact fun group supersedes h => absurd h (by simp)
  have hcr := hprot.step (i := .createTextMlsGroup group none) (by
    intro group supersedes heq
    cases heq
    decide)
  rw [create_step] at hcr
  have hadm := hcr.step (i := .insertMlsTextCommit admission genesisSha256 0)
    (fun group supersedes h => absurd h (by simp))
  rw [admit_step] at hadm
  exact hadm

theorem released_reachable : Reachable (exec primitives) CreatorSeated .empty
    releasedStore := by
  have hrel := admitted_reachable.step
    (i := .releaseChannelSeatsForUser guest.userId none (seconds 4))
    (fun group supersedes h => absurd h (by simp))
  rw [release_step] at hrel
  exact hrel

/-- The release of the guest's seat in the sample store leaves the guest's device in the
group, with a pending removal. -/
theorem seating_safety_released :
    SeatedAndListed releasedStore channelId guest.userId ∨
      ∃ pending ∈ releasedGroup.pendingRemovals, pending.userId = guest.userId :=
  seating_safety released_reachable groupId releasedGroup (by decide) rfl rfl
    guest (by decide)

end SlogaBackend.Mls
