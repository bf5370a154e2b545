import SlogaBackend.Lib.Table
import SlogaBackend.Mls.SeatListPlan

/-!
# Seat tables, and what an applied seat-list plan does to them

A seat row is stored under `{channel_id}:{user_id}`. `SeatsCoherent` says that
every stored row sits under its own composite id and that its channel id is a
valid one; a valid channel id has no colon, so the composite id determines the
channel and the user, and a search for a user among the rows of a channel is a
lookup (`find?_seatsOf`).

`AppliedPlan` is the specification of an applied `planSeatListWrite` over a
coherent table: which rows it writes, which users it claims, when it may claim
them, and whom it makes a pending removal. Both drivers use it.
-/

namespace SlogaBackend.Mls

open Checks

/-! ## Seat tables -/

/-- Every stored seat sits under its own composite id, in a channel with a valid id. -/
def SeatsCoherent (t : Table String ChannelSeat) : Prop :=
  ∀ k seat, t.get k = some seat →
    k = seat.id ∧ seat.id = ChannelSeat.compositeId seat.channelId seat.userId ∧
      isValidUlidId seat.channelId = true

/-- The seat rows of a channel. -/
def seatsOf (t : Table String ChannelSeat) (channelId : String) : List ChannelSeat :=
  t.values.filter fun seat => seat.channelId == channelId

/-- The user holds an active seat row in the channel. -/
def ActiveAt (t : Table String ChannelSeat) (channelId userId : String) : Prop :=
  ∃ seat, t.get (ChannelSeat.compositeId channelId userId) = some seat ∧ seat.isActive = true

variable {t : Table String ChannelSeat} {c u : String} {seat : ChannelSeat}

section

variable (ht : SeatsCoherent t)
include ht

theorem SeatsCoherent.of_get (hc : isValidUlidId c = true)
    (h : t.get (ChannelSeat.compositeId c u) = some seat) :
    seat.channelId = c ∧ seat.userId = u ∧ seat.id = ChannelSeat.compositeId c u := by
  obtain ⟨hk, hid, hul⟩ := ht _ _ h
  obtain ⟨hch, hu⟩ := ChannelSeat.compositeId_inj hul hc ((hid.symm.trans hk.symm))
  exact ⟨hch, hu, hk.symm⟩

theorem mem_seatsOf : seat ∈ seatsOf t c ↔
      seat.channelId = c ∧ t.get (ChannelSeat.compositeId c seat.userId) = some seat := by
  unfold seatsOf
  rw [mem_filter, beq_iff_eq, mem_values]
  constructor
  · rintro ⟨⟨k, hk⟩, rfl⟩
    obtain ⟨hkid, hid, -⟩ := ht _ _ hk
    exact ⟨rfl, by rw [← hid, ← hkid]; exact hk⟩
  · rintro ⟨hch, hg⟩
    exact ⟨⟨_, hg⟩, hch⟩

/-- **Searching a user among a channel's rows is a lookup.** -/
theorem find?_seatsOf (hc : isValidUlidId c = true) (u : String) :
    ((seatsOf t c).find? fun seat => seat.userId == u) = t.get (ChannelSeat.compositeId c u) := by
  cases hg : t.get (ChannelSeat.compositeId c u) with
  | none =>
    rw [List.find?_eq_none]
    intro seat hst heq
    obtain ⟨-, hs⟩ := (mem_seatsOf ht).mp hst
    rw [beq_iff_eq] at heq
    rw [heq, hg] at hs
    cases hs
  | some seat =>
    obtain ⟨hch, hu, -⟩ := ht.of_get hc hg
    have hmem : seat ∈ seatsOf t c := (mem_seatsOf ht).mpr ⟨hch, by rw [hu]; exact hg⟩
    cases hf : (seatsOf t c).find? fun seat => seat.userId == u with
    | none => exact absurd (List.find?_eq_none.mp hf seat hmem) (by simp [hu])
    | some found =>
      have hfu : found.userId = u := by simpa using List.find?_some hf
      obtain ⟨-, hfg⟩ := (mem_seatsOf ht).mp (mem_of_find?_eq_some hf)
      rw [hfu, hg] at hfg
      exact hfg.symm

theorem any_active_seatsOf (hc : isValidUlidId c = true) :
    ((seatsOf t c).any fun seat => seat.userId == u && seat.isActive) = true ↔ ActiveAt t c u := by
  rw [any_eq_true]
  constructor
  · rintro ⟨seat, hmem, hcn⟩
    rw [and_eq_true, beq_iff_eq] at hcn
    obtain ⟨-, hg⟩ := (mem_seatsOf ht).mp hmem
    exact ⟨seat, by rw [← hcn.1]; exact hg, hcn.2⟩
  · rintro ⟨seat, hg, hact⟩
    obtain ⟨hch, hu, -⟩ := ht.of_get hc hg
    exact ⟨seat, (mem_seatsOf ht).mpr ⟨hch, by rw [hu]; exact hg⟩, by simp [hu, hact]⟩

end

/-- The rows of a channel that count against the cap, as a set of keys. -/
def countedKeys (t : Table String ChannelSeat) (channelId : String) (now : Timestamp) :
    Finset String :=
  t.support fun seat => seat.channelId == channelId && seat.countsAgainstCap now

variable {now : Timestamp} {row : ChannelSeat} {l rows releasedRows : List ChannelSeat}
  {desired seats : List String} {input : SeatListWriteInput}

theorem mem_countedKeys {k : String} : k ∈ countedKeys t c now ↔
      ∃ seat, t.get k = some seat ∧ seat.channelId = c ∧ seat.countsAgainstCap now = true := by
  simp [countedKeys, Table.mem_support]

theorem card_countedKeys (now : Timestamp) :
    (countedKeys t c now).card = channelSeatsUsed (seatsOf t c) now := by
  unfold countedKeys channelSeatsUsed seatsOf
  rw [Table.card_support, List.filter_filter]
  congr 1
  exact List.filter_congr fun seat _ => Bool.and_comm _ _

/-! ## Claims and releases -/

theorem claimSeat_eq_none (ht : SeatsCoherent t) (hc : isValidUlidId c = true) :
    claimSeat c (seatsOf t c) now u = none ↔ ActiveAt t c u := by
  unfold claimSeat ActiveAt
  rw [find?_seatsOf ht hc]
  cases hg : t.get (ChannelSeat.compositeId c u) with
  | none => simp
  | some seat =>
    by_cases hact : seat.isActive = true
    · simp [hact]
    · simp [hact]

/-- A claim writes an active row for a user without one, and takes no new slot only
when the row it reactivates was cooling. -/
theorem claimSeat_eq_some (ht : SeatsCoherent t) (hc : isValidUlidId c = true) {fresh : Bool}
    (h : claimSeat c (seatsOf t c) now u = some (row, fresh)) :
    row.channelId = c ∧ row.userId = u ∧ row.id = ChannelSeat.compositeId c u ∧
      row.isActive = true ∧ ¬ ActiveAt t c u ∧
      (fresh = false → ∃ seat, t.get row.id = some seat ∧ seat.isCooling now = true) := by
  have hinac : ¬ ActiveAt t c u := by
    intro hact
    have hno : claimSeat c (seatsOf t c) now u = none := (claimSeat_eq_none ht hc).mpr hact
    rw [h] at hno
    cases hno
  unfold claimSeat at h
  rw [find?_seatsOf ht hc] at h
  cases hg : t.get (ChannelSeat.compositeId c u) with
  | none =>
    rw [hg] at h
    obtain ⟨rfl, rfl⟩ := h
    exact ⟨rfl, rfl, rfl, rfl, hinac, by simp⟩
  | some seat =>
    obtain ⟨hch, hu, hid⟩ := ht.of_get hc hg
    rw [hg] at h
    dsimp only at h
    split at h
    · cases h
    · simp only [some.injEq, Prod.mk.injEq] at h
      obtain ⟨rfl, rfl⟩ := h
      refine ⟨hch, hu, hid, rfl, hinac, fun hfr => ⟨seat, ?_, by simpa using hfr⟩⟩
      rw [ChannelSeat.reactivate_id, hid]
      exact hg

theorem releaseSeats_eq_ok (h : releaseSeats now l = .ok rows) :
    List.Forall₂ (fun seat row => seat.release now = .ok row) l rows := by
  induction l generalizing rows with
  | nil =>
    rw [releaseSeats, ok_eq_ok] at h
    rw [← h]
    exact List.Forall₂.nil
  | cons seat l ih =>
    simp only [releaseSeats, bind_eq_ok, pure_eq_ok] at h
    obtain ⟨row, hrow, others, hrs, rfl⟩ := h
    exact List.Forall₂.cons hrow (ih hrs)

section

variable {α β : Type*} {R : α → β → Prop} {l : List α} {l' : List β} (h : List.Forall₂ R l l')
include h

theorem exists_of_forall₂_right {b : β} (hb : b ∈ l') : ∃ a ∈ l, R a b := by
  induction h with
  | nil => cases hb
  | cons hab _ ih =>
    rcases mem_cons.mp hb with rfl | hmem
    · exact ⟨_, mem_cons_self, hab⟩
    · obtain ⟨a, ha, hr⟩ := ih hmem
      exact ⟨a, mem_cons_of_mem _ ha, hr⟩

theorem exists_of_forall₂_left {a : α} (ha : a ∈ l) : ∃ b ∈ l', R a b := by
  induction h with
  | nil => cases ha
  | cons hab _ ih =>
    rcases mem_cons.mp ha with rfl | hmem
    · exact ⟨_, mem_cons_self, hab⟩
    · obtain ⟨b, hb, hr⟩ := ih hmem
      exact ⟨b, mem_cons_of_mem _ hb, hr⟩

end

theorem map_id_releaseSeats
    (h : List.Forall₂ (fun seat row => ChannelSeat.release seat now = .ok row) l rows) :
    rows.map (·.id) = l.map (·.id) := by
  induction h with
  | nil => rfl
  | cons hab _ ih => rw [map_cons, map_cons, ih, (ChannelSeat.release_eq_ok hab).1]

theorem mem_seatsToRelease (ht : SeatsCoherent t) {seat : ChannelSeat} :
    seat ∈ seatsToRelease (seatsOf t c) desired ↔
      (seat.channelId = c ∧ t.get (ChannelSeat.compositeId c seat.userId) = some seat) ∧
        seat.isActive = true ∧ seat.userId ∉ desired := by
  simp [seatsToRelease, mem_seatsOf ht]

/-- The rows a plan writes: active ones for the listed users that had none, released
ones for the active users off the list. -/
structure PlannedRow (t : Table String ChannelSeat) (channelId : String) (seats : List String)
    (row : ChannelSeat) : Prop where
  channel_eq : row.channelId = channelId
  id_eq : row.id = ChannelSeat.compositeId channelId row.userId
  change : (row.userId ∈ seats ∧ row.isActive = true ∧ ¬ ActiveAt t channelId row.userId) ∨
    (row.userId ∉ seats ∧ row.isActive = false ∧ ActiveAt t channelId row.userId)

/-! ## The specification of an applied plan -/

/-- What an applied seat-list plan consists of, over a coherent seat table. -/
structure AppliedPlan (prim : Primitives) (input : SeatListWriteInput)
    (t : Table String ChannelSeat) (body : SeatListBody) (plan : SeatListWritePlan) : Prop where
  parsed : SeatListBody.parse input.submission.body = .ok body
  channel_eq : body.channelId = input.channelId
  row_id : plan.row.id = input.channelId
  row_body : plan.row.body = input.submission.body
  row_version : plan.row.version = body.version
  row_signer_user : plan.row.signerUserId = body.signerUserId
  row_signer_device : plan.row.signerDeviceId = body.signerDeviceId
  hash_eq : plan.row.commitAdSha256 prim = .ok plan.seatListAdSha256
  version_rule : (input.kind = .protect ∧ input.stored = none) ∨
    (input.kind = .put ∧ ∃ stored storedBody, input.stored = some stored ∧
      SeatListBody.parse stored.body = .ok storedBody ∧
      ∀ u ∈ body.seats, u ∈ storedBody.seats → u = body.signerUserId ∨ ActiveAt t input.channelId u)
  rows_planned : ∀ row ∈ plan.seatRows, PlannedRow t input.channelId body.seats row
  rows_nodup : (plan.seatRows.map (·.id)).Nodup
  rows_complete : ∀ u, (u ∈ body.seats ↔ ¬ ActiveAt t input.channelId u) →
    ∃ row ∈ plan.seatRows, row.userId = u
  claimed_iff : ∀ u, u ∈ plan.claimed ↔ u ∈ body.seats ∧ ¬ ActiveAt t input.channelId u
  claims_allowed : plan.claimed ≠ [] → ∃ entitlement newIds,
    input.entitlement = some entitlement ∧ entitlement.isActive = true ∧
      (∀ row ∈ plan.seatRows, row.isActive = true → row.id ∈ newIds ∨
        ∃ seat, t.get row.id = some seat ∧ seat.isCooling input.now = true) ∧
      (newIds = [] ∨ channelSeatsUsed input.seats input.now + newIds.length ≤ entitlement.slotCap)
  pending_none : input.textGroup = none → plan.pendingAdded = []
  pending_nodup : (plan.pendingAdded.map (·.userId)).Nodup
  pending_iff : ∀ group, input.textGroup = some group → ∀ u,
    (∃ p ∈ plan.pendingAdded, p.userId = u) ↔
      u ∉ body.seats ∧ (ActiveAt t input.channelId u ∨ ∃ listed,
        storedSeats input.stored = .ok listed ∧ u ∈ listed) ∧
      (∃ member ∈ group.members, member.userId = u) ∧ group.hasPendingRemoval u = false

/-! ### The rows -/

section

variable (ht : SeatsCoherent t) (hc : isValidUlidId c = true)
  (hrel : releaseSeats now (seatsToRelease (seatsOf t c) (btreeSet seats)) = .ok releasedRows)
include ht hc hrel

theorem plannedRow_of_mem
    (hrow : row ∈ (seatClaims c (seatsOf t c) now (btreeSet seats)).map (·.1) ++ releasedRows) :
    PlannedRow t c seats row := by
  rcases mem_append.mp hrow with hcla | hrele
  · simp only [mem_map, seatClaims, mem_filterMap] at hcla
    obtain ⟨⟨row', fresh⟩, ⟨u, hu, hcl⟩, rfl⟩ := hcla
    obtain ⟨hch, huse, hid, hact, hnot, -⟩ := claimSeat_eq_some ht hc hcl
    refine ⟨hch, by rw [huse]; exact hid, .inl ⟨?_, hact, by rw [huse]; exact hnot⟩⟩
    rw [huse]
    exact mem_btreeSet.mp hu
  · obtain ⟨seat, hst, hok⟩ := exists_of_forall₂_right (releaseSeats_eq_ok hrel) hrele
    obtain ⟨⟨hch, hg⟩, hact, hoff⟩ := (mem_seatsToRelease ht).mp hst
    obtain ⟨hid, hch', hu, hina⟩ := ChannelSeat.release_eq_ok hok
    obtain ⟨-, -, hseati⟩ := ht.of_get hc hg
    refine ⟨hch'.trans hch, by rw [hid, hu]; exact hseati, .inr ⟨?_, hina, seat, ?_, hact⟩⟩
    · rw [hu]
      exact fun hmem => hoff (mem_btreeSet.mpr hmem)
    · rw [hu]
      exact hg

theorem plannedRows_complete (hchg : u ∈ seats ↔ ¬ ActiveAt t c u) :
    ∃ row ∈ (seatClaims c (seatsOf t c) now (btreeSet seats)).map (·.1) ++ releasedRows,
      row.userId = u := by
  by_cases hu : u ∈ seats
  · cases hcl : claimSeat c (seatsOf t c) now u with
    | none => exact absurd ((claimSeat_eq_none ht hc).mp hcl) (hchg.mp hu)
    | some claim =>
      obtain ⟨row, fresh⟩ := claim
      obtain ⟨-, huse, -⟩ := claimSeat_eq_some ht hc hcl
      refine ⟨row, mem_append_left _ ?_, huse⟩
      exact mem_map.mpr ⟨(row, fresh),
        mem_filterMap.mpr ⟨u, mem_btreeSet.mpr hu, hcl⟩, rfl⟩
  · have hact : ActiveAt t c u := not_not.mp (mt hchg.mpr hu)
    obtain ⟨seat, hg, hst⟩ := hact
    obtain ⟨hch, huse, -⟩ := ht.of_get hc hg
    have hmem : seat ∈ seatsToRelease (seatsOf t c) (btreeSet seats) :=
      (mem_seatsToRelease ht).mpr ⟨⟨hch, by rw [huse]; exact hg⟩, hst, by
        rw [huse]; exact fun h => hu (mem_btreeSet.mp h)⟩
    obtain ⟨row, hrow, hok⟩ := exists_of_forall₂_left (releaseSeats_eq_ok hrel) hmem
    obtain ⟨-, -, hrw, -⟩ := ChannelSeat.release_eq_ok hok
    exact ⟨row, mem_append_right _ hrow, hrw.trans huse⟩

end

theorem seatsOf_nodup (t : Table String ChannelSeat) (ht : SeatsCoherent t) (c : String) :
    ((seatsOf t c).map (·.id)).Nodup := by
  have hky : t.values.map (·.id) = t.entries.map Sigma.fst := by
    unfold Table.values
    rw [map_map]
    refine List.map_congr_left fun e he => ?_
    exact (ht e.1 e.2 (get_eq_some_iff.mpr he)).1.symm
  have hnd : (t.values.map (·.id)).Nodup := by
    rw [hky]
    exact t.keys_nodup
  exact hnd.sublist (List.filter_sublist.map _)

theorem plannedRows_nodup (ht : SeatsCoherent t) (hc : isValidUlidId c = true)
    (hrel : releaseSeats now (seatsToRelease (seatsOf t c) (btreeSet seats)) = .ok releasedRows) :
    (((seatClaims c (seatsOf t c) now (btreeSet seats)).map (·.1) ++ releasedRows).map
      (·.id)).Nodup := by
  rw [map_append, nodup_append]
  refine ⟨?_, ?_, ?_⟩
  · -- one claim for each desired user, under that user's id
    have hclai : ∀ l : List String, l.Nodup →
        (((seatClaims c (seatsOf t c) now l).map (·.1)).map (·.id)).Nodup := by
      intro l hl
      induction l with
      | nil => exact List.nodup_nil
      | cons v l ih =>
        rw [nodup_cons] at hl
        unfold seatClaims at ih ⊢
        rw [List.filterMap_cons]
        cases hcl : claimSeat c (seatsOf t c) now v with
        | none => exact ih hl.2
        | some claim =>
          obtain ⟨-, -, hid, -⟩ := claimSeat_eq_some ht hc hcl
          rw [map_cons, map_cons, nodup_cons]
          refine ⟨fun hmem => ?_, ih hl.2⟩
          simp only [mem_map, mem_filterMap] at hmem
          obtain ⟨row', ⟨⟨row'', fresh'⟩, ⟨w, hw, hclw⟩, rfl⟩, heq⟩ := hmem
          obtain ⟨-, -, hid', -⟩ := claimSeat_eq_some ht hc hclw
          have hvw : v = w := joinColon_right_inj (hid.symm.trans (heq.symm.trans hid'))
          exact hl.1 (hvw ▸ hw)
    exact hclai _ (nodup_btreeSet seats)
  · rw [map_id_releaseSeats (releaseSeats_eq_ok hrel)]
    exact (seatsOf_nodup t ht c).sublist (List.filter_sublist.map _)
  · -- a claimed user has no active row, a released one does
    intro a ha b hb hab
    simp only [mem_map] at ha hb
    obtain ⟨row, ⟨claim, hcla, rfl⟩, rfl⟩ := ha
    obtain ⟨row', hrow', rfl⟩ := hb
    have h1 := plannedRow_of_mem ht hc hrel
      (mem_append_left _ (mem_map.mpr ⟨claim, hcla, rfl⟩))
    have h2 := plannedRow_of_mem ht hc hrel (mem_append_right _ hrow')
    have huse : claim.1.userId = row'.userId :=
      joinColon_right_inj (h1.id_eq.symm.trans (hab.trans h2.id_eq))
    simp only [seatClaims, mem_filterMap] at hcla
    obtain ⟨u, hu, hcl⟩ := hcla
    obtain ⟨-, hcu, -, -, hnot, -⟩ := claimSeat_eq_some ht hc hcl
    obtain ⟨seat, hst, hok⟩ := exists_of_forall₂_right (releaseSeats_eq_ok hrel) hrow'
    obtain ⟨⟨-, hg⟩, hact, -⟩ := (mem_seatsToRelease ht).mp hst
    obtain ⟨-, -, hru, -⟩ := ChannelSeat.release_eq_ok hok
    refine hnot ⟨seat, ?_, hact⟩
    rw [← hcu, huse, hru]
    exact hg

/-! ### The checks of the planner -/

theorem versionRule_eq_none {body : SeatListBody} (h : versionRule input body = .ok none) :
    (input.kind = .protect ∧ input.stored = none) ∨
      (input.kind = .put ∧ ∃ stored, input.stored = some stored) := by
  unfold versionRule at h
  split at h
  · cases h
  · rename_i hkn hsto
    exact .inl ⟨hkn, hsto⟩
  · cases h
  · rename_i stored hkn hsto
    exact .inr ⟨hkn, stored, hsto⟩

theorem versionRule_eq_some {body : SeatListBody} {list : SeatList}
    (h : versionRule input body = .ok (some list)) :
    input.kind = .put ∧ input.stored = some list := by
  unfold versionRule at h
  split at h
  · cases h
  · simp only [bind_eq_ok, pure_eq_ok] at h
    obtain ⟨_, -, heq⟩ := h
    cases heq
  · cases h
  · rename_i hkn hsto
    split at h
    · rw [ok_eq_ok] at h
      exact ⟨hkn, by rw [hsto, h]⟩
    · simp only [bind_eq_ok, pure_eq_ok] at h
      obtain ⟨_, -, heq⟩ := h
      cases heq

/-- A list that names no server-removed user names, besides its signer, only users
who are new to it or still actively seated. -/
theorem seatListRemovedUsers_eq_nil (ht : SeatsCoherent t) (hc : isValidUlidId c = true)
    {body : SeatListBody} {stored : SeatList}
    (h : seatListRemovedUsers body (some stored) (seatsOf t c) = .ok []) :
    ∃ storedBody, SeatListBody.parse stored.body = .ok storedBody ∧
      ∀ u ∈ body.seats, u ∈ storedBody.seats → u = body.signerUserId ∨ ActiveAt t c u := by
  simp only [seatListRemovedUsers, bind_eq_ok, pure_eq_ok] at h
  obtain ⟨storedBody, hprs, hnil⟩ := h
  refine ⟨storedBody, hprs, fun u hu hsto => ?_⟩
  by_cases hsig : u = body.signerUserId
  · exact .inl hsig
  · have hcan : u ∈ body.seats.filter fun userId =>
        userId != body.signerUserId && storedBody.seats.contains userId :=
      mem_filter.mpr ⟨hu, by simp [hsig, hsto]⟩
    have hacti := List.filter_eq_nil_iff.mp hnil u hcan
    rw [not_eq_true', Bool.not_eq_false] at hacti
    exact .inr ((any_active_seatsOf ht hc).mp hacti)

theorem checkClaims_eq_ok {claims : List (ChannelSeat × Bool)} {u : Unit}
    (h : checkClaims input claims = .ok u) (hne : claims ≠ []) :
    ∃ entitlement, input.entitlement = some entitlement ∧ entitlement.isActive = true ∧
      ((claims.filter (·.2)).length = 0 ∨
        channelSeatsUsed input.seats input.now + (claims.filter (·.2)).length ≤
          entitlement.slotCap) := by
  simp only [checkClaims, bind_eq_ok, if_pos hne, okOr_eq_ok, refuseIf_eq_ok] at h
  obtain ⟨_, -, entitlement, hent, hcap⟩ := h
  rw [filter_eq_some_iff] at hent
  refine ⟨entitlement, hent.1, hent.2, ?_⟩
  rw [not_and_or, not_lt, not_lt] at hcap
  exact hcap.imp_left fun hle => Nat.le_zero.mp hle

theorem mem_droppedUsers (ht : SeatsCoherent t) (hc : isValidUlidId c = true)
    (hsea : input.seats = seatsOf t c) {dropped : List String}
    (h : droppedUsers input desired = .ok dropped) {u : String} : u ∈ dropped ↔ u ∉ desired ∧
      (ActiveAt t c u ∨ ∃ listed, storedSeats input.stored = .ok listed ∧ u ∈ listed) := by
  simp only [droppedUsers, bind_eq_ok, pure_eq_ok] at h
  obtain ⟨listed, hlst, rfl⟩ := h
  have hact : u ∈ (input.seats.filter (·.isActive)).map (·.userId) ↔ ActiveAt t c u := by
    rw [← any_active_seatsOf ht hc, hsea, any_eq_true, mem_map]
    constructor
    · rintro ⟨seat, hmem, rfl⟩
      rw [mem_filter] at hmem
      exact ⟨seat, hmem.1, by simp [hmem.2]⟩
    · rintro ⟨seat, hmem, hcn⟩
      rw [and_eq_true, beq_iff_eq] at hcn
      exact ⟨seat, mem_filter.mpr ⟨hmem, hcn.2⟩, hcn.1⟩
  have hls : (∃ l, storedSeats input.stored = .ok l ∧ u ∈ l) ↔ u ∈ listed := by
    rw [hlst]
    exact ⟨fun ⟨l, hl, hu⟩ => by rw [ok.inj hl]; exact hu, fun hu => ⟨listed, rfl, hu⟩⟩
  rw [mem_filter, mem_btreeSet, mem_append, hact, hls]
  simp [and_comm]

section

variable {added : List MlsPendingRemoval} (h : pendingRemovalsFor input desired = .ok added)
include h

theorem pendingRemovalsFor_none (hno : input.textGroup = none) : added = [] := by
  simp only [pendingRemovalsFor, hno, ok_eq_ok] at h
  exact h.symm

theorem pendingRemovalsFor_some {group : MlsGroup} (hgr : input.textGroup = some group) :
    ∃ dropped, droppedUsers input desired = .ok dropped ∧
      added.map (·.userId) = dropped.filter fun userId =>
        (group.members.any fun member => member.userId == userId) &&
          !group.hasPendingRemoval userId := by
  simp only [pendingRemovalsFor, hgr, bind_eq_ok, pure_eq_ok] at h
  obtain ⟨dropped, hdrop, rfl⟩ := h
  refine ⟨dropped, hdrop, ?_⟩
  rw [map_map]
  exact List.map_id _

end

theorem droppedUsers_nodup {dropped : List String} (h : droppedUsers input desired = .ok dropped) :
    dropped.Nodup := by
  simp only [droppedUsers, bind_eq_ok, pure_eq_ok] at h
  obtain ⟨listed, -, rfl⟩ := h
  exact (nodup_btreeSet _).filter _

theorem mem_claimed (ht : SeatsCoherent t) (hc : isValidUlidId c = true) :
    u ∈ (seatClaims c (seatsOf t c) now (btreeSet seats)).map (·.1.userId) ↔
      u ∈ seats ∧ ¬ ActiveAt t c u := by
  simp only [mem_map, seatClaims, mem_filterMap, mem_btreeSet]
  constructor
  · rintro ⟨⟨row, fresh⟩, ⟨v, hv, hcl⟩, rfl⟩
    obtain ⟨-, huse, -, -, hnot, -⟩ := claimSeat_eq_some ht hc hcl
    rw [huse]
    exact ⟨hv, hnot⟩
  · rintro ⟨hu, hnot⟩
    cases hcl : claimSeat c (seatsOf t c) now u with
    | none => exact absurd ((claimSeat_eq_none ht hc).mp hcl) hnot
    | some claim =>
      obtain ⟨row, fresh⟩ := claim
      obtain ⟨-, huse, -⟩ := claimSeat_eq_some ht hc hcl
      exact ⟨(row, fresh), ⟨u, hu, hcl⟩, huse⟩

/-- The claims that take a new slot, by id: an active row of the plan is one of them
or reactivates a cooling row. -/
theorem fresh_or_cooling (ht : SeatsCoherent t) (hc : isValidUlidId c = true)
    (hrel : releaseSeats now (seatsToRelease (seatsOf t c) (btreeSet seats)) = .ok releasedRows)
    (hact : row.isActive = true)
    (hrow : row ∈ (seatClaims c (seatsOf t c) now (btreeSet seats)).map (·.1) ++ releasedRows) :
    row.id ∈ ((seatClaims c (seatsOf t c) now (btreeSet seats)).filter (·.2)).map (·.1.id) ∨
      ∃ seat, t.get row.id = some seat ∧ seat.isCooling now = true := by
  rcases mem_append.mp hrow with hcla | hrele
  · obtain ⟨⟨row', fresh⟩, hmem, rfl⟩ := mem_map.mp hcla
    cases fresh with
    | true => exact .inl (mem_map.mpr ⟨(row', true), mem_filter.mpr ⟨hmem, rfl⟩, rfl⟩)
    | false =>
      obtain ⟨v, -, hcl⟩ := mem_filterMap.mp hmem
      obtain ⟨-, -, -, -, -, hco⟩ := claimSeat_eq_some ht hc hcl
      exact .inr (hco rfl)
  · obtain ⟨seat, -, hok⟩ := exists_of_forall₂_right (releaseSeats_eq_ok hrel) hrele
    obtain ⟨-, -, -, hina⟩ := ChannelSeat.release_eq_ok hok
    rw [hina] at hact
    cases hact

/-! ### The planner -/

/-- **An applied plan meets its specification.** -/
theorem planSeatListWrite_apply {prim : Primitives} (ht : SeatsCoherent t)
    (hsea : input.seats = seatsOf t input.channelId) {plan : SeatListWritePlan}
    (h : planSeatListWrite prim input = .ok (.apply plan)) :
    ∃ body, AppliedPlan prim input t body plan := by
  unfold planSeatListWrite at h
  rw [bind_eq_ok] at h
  obtain ⟨body, hsub, h⟩ := h
  rw [bind_eq_ok] at h
  obtain ⟨rule, hrl, h⟩ := h
  cases rule with
  | some stored => exact absurd h (by simp [pure, Except.pure])
  | none =>
    simp only [bind_eq_ok, pure_eq_ok] at h
    obtain ⟨plan', h, heq⟩ := h
    obtain rfl : plan' = plan := by simpa using heq
    simp only [checkSubmission, bind_eq_ok, refuseIf_eq_ok, pure_eq_ok, not_not] at hsub
    obtain ⟨body, hprs, _, hcha, _, -, _, -, rfl⟩ := hsub
    have hval := SeatListBody.valid_of_parse hprs
    have hc : isValidUlidId input.channelId = true := hcha ▸ hval.channel_ulid
    simp only [planApply, bind_eq_ok, refuseIf_eq_ok, pure_eq_ok, not_not] at h
    obtain ⟨removed, hrem, _, hnil, _, -, releasedRows, hrel, _, hclai, pendingAdded,
      hpend, handovers, -, sha256, hsha, rfl⟩ := h
    subst hnil
    rw [hsea] at hrem hrel hclai
    have hmemRows : ∀ row, row ∈ List.insertionSort (fun a b : ChannelSeat => a.id ≤ b.id)
        ((seatClaims input.channelId input.seats input.now (btreeSet body.seats)).map (·.1) ++
          releasedRows) ↔
        row ∈ (seatClaims input.channelId (seatsOf t input.channelId) input.now
          (btreeSet body.seats)).map (·.1) ++ releasedRows := by
      intro row
      rw [List.mem_insertionSort, hsea]
    refine ⟨body, ?_⟩
    exact {
      parsed := hprs
      channel_eq := hcha
      row_id := rfl
      row_body := rfl
      row_version := rfl
      row_signer_user := rfl
      row_signer_device := rfl
      hash_eq := hsha
      version_rule := by
        rcases versionRule_eq_none hrl with hprot | ⟨hput, stored, hsto⟩
        · exact .inl hprot
        · rw [hsto] at hrem
          obtain ⟨storedBody, hpar, hnam⟩ := seatListRemovedUsers_eq_nil ht hc hrem
          exact .inr ⟨hput, stored, storedBody, hsto, hpar, hnam⟩
      rows_planned := fun row hrow => plannedRow_of_mem ht hc hrel ((hmemRows row).mp hrow)
      rows_nodup := by
        have hpr := List.perm_insertionSort (fun a b : ChannelSeat => a.id ≤ b.id)
          ((seatClaims input.channelId input.seats input.now (btreeSet body.seats)).map (·.1) ++
            releasedRows)
        rw [(hpr.map (·.id)).nodup_iff, hsea]
        exact plannedRows_nodup ht hc hrel
      rows_complete := fun u hu => by
        obtain ⟨row, hrow, hru⟩ := plannedRows_complete ht hc hrel hu
        exact ⟨row, (hmemRows row).mpr hrow, hru⟩
      claimed_iff := fun u => by
        rw [List.mem_insertionSort, hsea]
        exact mem_claimed ht hc
      claims_allowed := fun hne => by
        have hclaimsNe : seatClaims input.channelId (seatsOf t input.channelId) input.now
            (btreeSet body.seats) ≠ [] := by
          intro hemp
          rw [hsea, hemp] at hne
          exact hne rfl
        obtain ⟨entitlement, hent, hacti, hcap⟩ := checkClaims_eq_ok hclai hclaimsNe
        refine ⟨entitlement, ((seatClaims input.channelId (seatsOf t input.channelId) input.now
          (btreeSet body.seats)).filter (·.2)).map (·.1.id), hent, hacti, ?_, ?_⟩
        · intro row hrow hact
          exact fresh_or_cooling ht hc hrel hact ((hmemRows row).mp hrow)
        · rw [length_map]
          exact hcap.imp_left fun hzr => by
            rw [List.length_eq_zero_iff.mp hzr, List.map_nil]
      pending_none := pendingRemovalsFor_none hpend
      pending_nodup := by
        cases hgr : input.textGroup with
        | none =>
          rw [pendingRemovalsFor_none hpend hgr]
          exact List.nodup_nil
        | some group =>
          obtain ⟨dropped, hdrop, hmap⟩ := pendingRemovalsFor_some hpend hgr
          rw [hmap]
          exact (droppedUsers_nodup hdrop).filter _
      pending_iff := fun group hgr u => by
        obtain ⟨dropped, hdrop, hmap⟩ := pendingRemovalsFor_some hpend hgr
        have hmem : (∃ p ∈ pendingAdded, p.userId = u) ↔ u ∈ pendingAdded.map (·.userId) :=
          mem_map.symm
        rw [hmem, hmap, mem_filter, mem_droppedUsers ht hc hsea hdrop, mem_btreeSet]
        simp
        tauto }

theorem planSeatListWrite_unchanged {prim : Primitives} {list : SeatList}
    (h : planSeatListWrite prim input = .ok (.unchanged list)) :
    input.kind = .put ∧ input.stored = some list := by
  unfold planSeatListWrite at h
  rw [bind_eq_ok] at h
  obtain ⟨body, -, h⟩ := h
  rw [bind_eq_ok] at h
  obtain ⟨rule, hrl, h⟩ := h
  cases rule with
  | none =>
    simp only [bind_eq_ok, pure_eq_ok] at h
    obtain ⟨plan, -, heq⟩ := h
    cases heq
  | some stored =>
    obtain rfl : stored = list := by simpa [pure_eq_ok] using h
    exact versionRule_eq_some hrl

/-! ## The seats after an applied plan -/

section Applied

variable {prim : Primitives} {input : SeatListWriteInput} {body : SeatListBody}
  {plan : SeatListWritePlan}

section

variable (h : AppliedPlan prim input t body plan)
include h

theorem AppliedPlan.channel_ulid : isValidUlidId input.channelId = true :=
  h.channel_eq ▸ (SeatListBody.valid_of_parse h.parsed).channel_ulid

theorem AppliedPlan.seatsCoherent
    (ht : SeatsCoherent t) : SeatsCoherent (t.insertAll (·.id) plan.seatRows) := by
  intro k seat hg
  rcases get_insertAll_cases hg with ⟨hmem, hkey⟩ | ⟨hold, -⟩
  · have hrow := h.rows_planned seat hmem
    refine ⟨hkey.symm, ?_, ?_⟩
    · rw [hrow.channel_eq]
      exact hrow.id_eq
    · rw [hrow.channel_eq]
      exact h.channel_ulid
  · exact ht k seat hold

/-- **After an applied list the active seats of the channel are the listed users.** -/
theorem AppliedPlan.activeAt_iff :
    ActiveAt (t.insertAll (·.id) plan.seatRows) input.channelId u ↔ u ∈ body.seats := by
  by_cases hchg : u ∈ body.seats ↔ ¬ ActiveAt t input.channelId u
  · obtain ⟨row, hmem, rfl⟩ := h.rows_complete u hchg
    have hrow := h.rows_planned row hmem
    have hg : (t.insertAll (·.id) plan.seatRows).get row.id = some row :=
      Table.get_insertAll_of_mem h.rows_nodup hmem t
    rw [hrow.id_eq] at hg
    have hiff : ActiveAt (t.insertAll (·.id) plan.seatRows) input.channelId row.userId ↔
        row.isActive = true := by
      refine ⟨fun ⟨seat, hst, hact⟩ => ?_, fun hact => ⟨row, hg, hact⟩⟩
      rw [hg] at hst
      rw [some.inj hst]
      exact hact
    rw [hiff]
    rcases hrow.change with ⟨hin, hact, -⟩ | ⟨hout, hina, -⟩
    · exact ⟨fun _ => hin, fun _ => hact⟩
    · exact ⟨fun hact => absurd (hina.symm.trans hact) (by simp), fun hin => absurd hin hout⟩
  · have hne : ∀ row ∈ plan.seatRows, row.id ≠ ChannelSeat.compositeId input.channelId u := by
      intro row hmem hid
      have hrow := h.rows_planned row hmem
      have huse : row.userId = u := joinColon_right_inj (hrow.id_eq.symm.trans hid)
      rw [← huse] at hchg
      rcases hrow.change with ⟨hin, -, hnot⟩ | ⟨hout, -, hact⟩
      · exact hchg ⟨fun _ => hnot, fun _ => hin⟩
      · exact hchg ⟨fun hin => absurd hin hout, fun hnot => absurd hact hnot⟩
    unfold ActiveAt
    rw [Table.get_insertAll_of_notMem hne]
    exact (not_iff_not.mp (not_iff.mp hchg)).symm

theorem AppliedPlan.get_of_ne (hc : isValidUlidId c = true) (hne : c ≠ input.channelId) :
    (t.insertAll (·.id) plan.seatRows).get (ChannelSeat.compositeId c u) =
      t.get (ChannelSeat.compositeId c u) := by
  refine Table.get_insertAll_of_notMem (fun row hmem hid => hne ?_) t
  have hrow := h.rows_planned row hmem
  exact (ChannelSeat.compositeId_inj hc h.channel_ulid (hid.symm.trans hrow.id_eq)).1

end

end Applied

end SlogaBackend.Mls
