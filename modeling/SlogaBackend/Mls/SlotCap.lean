import SlogaBackend.Mls.Coherence

/-!
# The slot cap

The seats in use in a channel are the active ones and the ones still cooling. A
claim takes a new slot only for a missing or an expired row, a cooling row is
reactivated for free, the rows a list releases keep counting, a grant may lower the
cap, and a list that takes no slot skips the check. `slot_cap_respected` says that the
cap is never exceeded all the same, as long as the clock does not run backwards.

The argument counts *keys*. Every key that counts after an applied list counted
before it or belongs to one of the new slots (`countedKeys_applied`), and every key
that counts at a later time counted at the earlier one.
-/

namespace SlogaBackend.Mls

open Checks ReferenceDb

variable {prim : Primitives} {db next : ReferenceDb} {op : Op}

/-- The clock reading an operation on seats or entitlements is called with. -/
def Op.now? : Op → Option Timestamp
  | .upsertChannelEntitlement _ now => some now
  | .protectChannel _ _ now => some now
  | .putSeatList _ _ _ now => some now
  | .releaseChannelSeatsForUser _ _ now => some now
  | _ => none

def clockReadings (h : List (ReferenceDb × Op)) : List Timestamp := h.filterMap fun e => e.2.now?

theorem clockReadings_cons (s : ReferenceDb) (op : Op) (h : List (ReferenceDb × Op)) :
    clockReadings ((s, op) :: h) = op.now?.toList ++ clockReadings h := by
  unfold clockReadings
  rw [List.filterMap_cons]
  cases op.now? <;> rfl

/-- At `now`, no channel with an entitlement uses more seats than its cap. -/
def WithinCap (db : ReferenceDb) (now : Timestamp) : Prop :=
  ∀ k e, db.channelEntitlements.get k = some e →
    (countedKeys db.channelSeats e.channelId now).card ≤ e.slotCap

/-! ## Counting -/

variable {t : Table String ChannelSeat} {c : String} {now later last : Timestamp}
  {input : SeatListWriteInput} {plan : SeatListWritePlan}

theorem countedKeys_antitone (hle : now ≤ later) : countedKeys t c later ⊆ countedKeys t c now := by
  intro k hk
  obtain ⟨seat, hg, hch, hcoun⟩ := mem_countedKeys.mp hk
  exact mem_countedKeys.mpr ⟨seat, hg, hch, ChannelSeat.countsAgainstCap_antitone hle hcoun⟩

theorem WithinCap.mono (h : WithinCap db now) (hle : now ≤ later) :
    WithinCap db later := fun k e hg =>
  (Finset.card_le_card (countedKeys_antitone hle)).trans (h k e hg)

section

variable {body : SeatListBody}

/-- **The keys that count after an applied list.** Each counted before, or is one of the
new slots. -/
theorem countedKeys_applied (ht : SeatsCoherent t)
    (happ : AppliedPlan prim input t body plan) {newIds : List String}
    (hnew : ∀ row ∈ plan.seatRows, row.isActive = true → row.id ∈ newIds ∨
      ∃ seat, t.get row.id = some seat ∧ seat.isCooling input.now = true) :
    countedKeys (t.insertAll (·.id) plan.seatRows) input.channelId input.now ⊆
      countedKeys t input.channelId input.now ∪ newIds.toFinset := by
  intro k hk
  obtain ⟨seat, hg, hch, hcoun⟩ := mem_countedKeys.mp hk
  rw [Finset.mem_union, List.mem_toFinset]
  rcases get_insertAll_cases hg with ⟨hmem, rfl⟩ | ⟨hold, -⟩
  · have hrow := happ.rows_planned seat hmem
    -- a row that was active or cooling counted under its own channel
    have hcnt : ∀ old, t.get seat.id = some old → old.countsAgainstCap input.now = true →
        seat.id ∈ countedKeys t input.channelId input.now := by
      intro old hold hcou
      have hof := hold
      rw [hrow.id_eq] at hof
      exact mem_countedKeys.mpr ⟨old, hold, (ht.of_get happ.channel_ulid hof).1, hcou⟩
    rcases hrow.change with ⟨-, hact, -⟩ | ⟨-, -, old, hold, hact⟩
    · rcases hnew seat hmem hact with hfr | ⟨old, hold, hcl⟩
      · exact .inr hfr
      · exact .inl (hcnt old hold (by simp [ChannelSeat.countsAgainstCap, hcl]))
    · rw [← hrow.id_eq] at hold
      exact .inl (hcnt old hold (ChannelSeat.countsAgainstCap_of_isActive hact _))
  · exact .inl (mem_countedKeys.mpr ⟨seat, hold, hch, hcoun⟩)

theorem countedKeys_applied_of_ne (happ : AppliedPlan prim input t body plan)
    (hne : c ≠ input.channelId) (now : Timestamp) :
    countedKeys (t.insertAll (·.id) plan.seatRows) c now ⊆ countedKeys t c now := by
  intro k hk
  obtain ⟨seat, hg, hch, hcoun⟩ := mem_countedKeys.mp hk
  rcases get_insertAll_cases hg with ⟨hmem, -⟩ | ⟨hold, -⟩
  · exact absurd (hch.symm.trans (happ.rows_planned seat hmem).channel_eq) hne
  · exact mem_countedKeys.mpr ⟨seat, hold, hch, hcoun⟩

theorem AppliedPlan.inactive_of_claimed_nil
    (happ : AppliedPlan prim input t body plan) (hnil : plan.claimed = []) :
    ∀ row ∈ plan.seatRows, row.isActive ≠ true := by
  intro row hmem hact
  rcases (happ.rows_planned row hmem).change with ⟨hin, -, hnot⟩ | ⟨-, hina, -⟩
  · have hclaim := (happ.claimed_iff row.userId).mpr ⟨hin, hnot⟩
    rw [hnil] at hclaim
    cases hclaim
  · rw [hina] at hact
    cases hact

/-- **The slots a list takes fit the cap.** -/
theorem card_countedKeys_applied (ht : SeatsCoherent t)
    (happ : AppliedPlan prim input t body plan) (hsea : input.seats = seatsOf t input.channelId)
    (hcla : plan.claimed ≠ []) {entitlement : ChannelEntitlement}
    (hent : input.entitlement = some entitlement)
    (hbef : (countedKeys t input.channelId input.now).card ≤ entitlement.slotCap) :
    (countedKeys (t.insertAll (·.id) plan.seatRows) input.channelId input.now).card ≤
      entitlement.slotCap := by
  obtain ⟨entitlement', newIds, hent', -, hnew, hrm⟩ := happ.claims_allowed hcla
  cases hent.symm.trans hent'
  have hcr := (Finset.card_le_card (countedKeys_applied ht happ hnew)).trans
    (Finset.card_union_le _ _)
  rcases hrm with rfl | hrm
  · rw [List.toFinset_nil, Finset.card_empty, Nat.add_zero] at hcr
    exact hcr.trans hbef
  · rw [hsea, ← card_countedKeys] at hrm
    have hlen := List.toFinset_card_le newIds
    omega

end

/-! ## The steps -/

theorem withinCap_listWrite (hc : Coherent prim db) {channels : Table String Channel}
    (hop : op.seatListInput db = some input)
    (hpl : planSeatListWrite prim input = .ok (.apply plan)) (hcap : WithinCap db input.now) :
    WithinCap
      { db.applyDecision ((db.openTextGroup input.channelId).map (·.id)) (.apply plan) with
        channels := channels } input.now := by
  obtain ⟨body, happ⟩ := hc.appliedPlan hop hpl
  have hread := readsChannel_of_seatListInput hop
  intro k e hg
  have hg' : db.channelEntitlements.get k = some e := hg
  have hgl : (countedKeys (db.channelSeats.insertAll (·.id) plan.seatRows) e.channelId
      input.now).card ≤ e.slotCap := by
    by_cases hch : e.channelId = input.channelId
    · rw [hch]
      have hbef : (countedKeys db.channelSeats input.channelId input.now).card ≤ e.slotCap := by
        rw [← hch]
        exact hcap k e hg'
      by_cases hnil : plan.claimed = []
      · have hno : ∀ row ∈ plan.seatRows, row.isActive = true → row.id ∈ ([] : List String) ∨
            ∃ seat, db.channelSeats.get row.id = some seat ∧
              seat.isCooling input.now = true := fun row hmem hact =>
          absurd hact (happ.inactive_of_claimed_nil hnil row hmem)
        have hsub := countedKeys_applied hc.seats happ hno
        rw [List.toFinset_nil, Finset.union_empty] at hsub
        exact (Finset.card_le_card hsub).trans hbef
      · obtain ⟨entitlement, -, hent, -⟩ := happ.claims_allowed hnil
        have hsm : entitlement = e := by
          have hfet := hent
          rw [hread.entitlement_eq] at hfet
          obtain ⟨hgetE, hchE⟩ := hc.fetchChannelEntitlement_iff.mp hfet
          have hk := hc.entitlement_unique _ _ _ _ hgetE hg' (hchE.trans hch.symm)
          rw [hk, hg'] at hgetE
          exact (some.inj hgetE).symm
        rw [hsm] at hent
        exact card_countedKeys_applied hc.seats happ hread.seats_eq hnil hent hbef
    · exact (Finset.card_le_card (countedKeys_applied_of_ne happ hch _)).trans (hcap k e hg')
  exact hgl

theorem countedKeys_released {userId : String} {serverId : Option String}
    {cooldownUntil : Timestamp} :
    countedKeys (db.channelSeats.mapValues fun seat =>
      if db.releasesSeat userId serverId seat then releasedSeat now cooldownUntil seat else seat)
      c now ⊆ countedKeys db.channelSeats c now := by
  intro k hk
  obtain ⟨seat, hg, hch, hcoun⟩ := mem_countedKeys.mp hk
  rw [get_mapValues, map_eq_some_iff] at hg
  obtain ⟨old, hold, rfl⟩ := hg
  by_cases hrel : db.releasesSeat userId serverId old = true
  · rw [if_pos hrel] at hch
    rw [releasesSeat, and_eq_true, and_eq_true] at hrel
    exact mem_countedKeys.mpr ⟨old, hold, hch,
      ChannelSeat.countsAgainstCap_of_isActive hrel.1.2 now⟩
  · rw [if_neg hrel] at hch hcoun
    exact mem_countedKeys.mpr ⟨old, hold, hch, hcoun⟩

theorem withinCap_grant (hc : Coherent prim db) {entitlement stored : ChannelEntitlement}
    (hus : channelSeatsUsed (seatsOf db.channelSeats entitlement.channelId) now ≤
      entitlement.slotCap) (hsto : stored = storedEntitlement entitlement
      (db.fetchChannelEntitlement entitlement.channelId)) (hcap : WithinCap db now) :
    WithinCap { db with channelEntitlements := db.channelEntitlements.insert stored.id stored }
      now := by
  intro k e hg
  rw [get_insert] at hg
  by_cases hk : k = stored.id
  · rw [if_pos hk] at hg
    obtain ⟨hch, hsl, -⟩ := storedEntitlement_spec hc entitlement
    rw [← hsto] at hch hsl
    rw [← some.inj hg, hch, hsl, card_countedKeys]
    exact hus
  · rw [if_neg hk] at hg
    exact hcap k e hg

theorem withinCap_step (h : Step prim db op next) (hc : Coherent prim db) (hcap : WithinCap db last)
    (hcloc : ∀ now, op.now? = some now → last ≤ now) : WithinCap next (op.now?.getD last) := by
  have hmn : WithinCap db (op.now?.getD last) := by
    cases hnow : op.now? with
    | none => exact hcap
    | some now => exact hcap.mono (hcloc now hnow)
  cases h with
  | grant hus hsto => exact withinCap_grant hc hus hsto hmn
  | @listWrite _ input plan channels hop hpl =>
    have hnow : op.now?.getD last = input.now := by
      cases op with
      | protectChannel channelId submission now
      | putSeatList channelId submission allowClaims now =>
        rw [← some.inj hop]
        rfl
      | _ => exact absurd hop (by simp [Op.seatListInput])
    rw [hnow] at hmn ⊢
    exact withinCap_listWrite hc hop hpl hmn
  | @createText group prepared supersedes list squat hcre =>
    cases squat with
    | false | true => exact hmn
  | release hcl => exact fun k e hg => (Finset.card_le_card countedKeys_released).trans (hmn k e hg)
  | delete channelId =>
    intro k e hg
    have hold : db.channelEntitlements.get k = some e := (get_retain_eq_some.mp hg).1
    refine le_trans (Finset.card_le_card fun key hkey => ?_) (hmn k e hold)
    obtain ⟨seat, hse, hrs⟩ := mem_countedKeys.mp hkey
    exact mem_countedKeys.mpr ⟨seat, (get_retain_eq_some.mp hse).1, hrs⟩
  | _ => exact hmn

/-! ## The runs -/

theorem withinCap_run {admits : ReferenceDb → Op → Prop} {h : List (ReferenceDb × Op)}
    (hrun : Run (exec prim) admits db h next) (hc : Coherent prim db) (hcap : WithinCap db last)
    (hlat : ∀ now ∈ clockReadings h, last ≤ now) (hmn : (clockReadings h).Pairwise (· ≤ ·))
    {time : Timestamp} (hls : last ≤ time) (htm : ∀ now ∈ clockReadings h, now ≤ time) :
    WithinCap next time := by
  induction hrun generalizing last with
  | nil s => exact hcap.mono hls
  | @cons s t i h hadm hrs ih =>
    have hst := withinCap_step (step_exec prim s i) hc hcap
    have hc' := coherent_exec i hc
    rw [clockReadings_cons] at hlat hmn htm
    cases hnow : i.now? with
    | none =>
      rw [hnow] at hst hlat hmn htm
      exact ih hc' (hst nofun) hlat hmn hls htm
    | some now =>
      rw [hnow] at hst hlat hmn htm
      rw [Option.toList_some, List.singleton_append, List.pairwise_cons] at hmn
      refine ih hc' (hst fun now' hso => ?_) hmn.1 hmn.2 (htm now mem_cons_self)
        fun now' hmem => htm now' (mem_cons_of_mem _ hmem)
      rw [← some.inj hso]
      exact hlat now mem_cons_self

/-- **The slot cap is respected.** After every run from the empty store whose clock
readings do not decrease, at every time from the last reading on, a channel with an
entitlement uses at most `slotCap` seats, active and cooling ones counted. -/
theorem slot_cap_respected {h : List (ReferenceDb × Op)}
    (hrun : Run (exec prim) (fun _ _ => True) .empty h db)
    (hmono : (clockReadings h).Pairwise (· ≤ ·)) {time : Timestamp}
    (htime : ∀ now ∈ clockReadings h, now ≤ time) :
    ∀ e ∈ db.channelEntitlements.values,
      channelSeatsUsed (seatsOf db.channelSeats e.channelId) time ≤ e.slotCap := by
  intro e hmem
  obtain ⟨k, hget⟩ := mem_values.mp hmem
  rw [← card_countedKeys]
  have hempty : ∀ now, WithinCap .empty now := fun now k e hget =>
    absurd hget (by simp [ReferenceDb.empty])
  cases hfirst : clockReadings h with
  | nil =>
    rw [hfirst] at hmono htime
    exact withinCap_run hrun (coherent_empty prim) (hempty time) (by simp [hfirst])
      (by rw [hfirst]; exact hmono) le_rfl (by simp [hfirst]) k e hget
  | cons first rest =>
    rw [hfirst] at hmono htime
    refine withinCap_run hrun (coherent_empty prim) (hempty first) ?_ (by rw [hfirst]; exact hmono)
      (htime first mem_cons_self) (by rw [hfirst]; exact htime) k e hget
    rw [hfirst]
    intro now hnow
    rcases mem_cons.mp hnow with rfl | hrest
    · exact le_rfl
    · exact (List.pairwise_cons.mp hmono).1 now hrest

open Sample

/-- The sample channel, protected with both seats of its cap in use. -/
theorem slot_cap_respected_sample :
    channelSeatsUsed (seatsOf protectedStore.channelSeats channelId)
      (seconds 1) ≤ 2 := by
  have hrun : Run (exec primitives) (fun _ _ => True) .empty
      (historyOf (exec primitives) .empty protectOps) protectedStore := by
    rw [← protect_run]
    exact Run.of_admitsAll ⟨trivial, trivial, trivial, trivial⟩
  have hclock : clockReadings (historyOf (exec primitives) .empty protectOps) =
      [0, seconds 1] := rfl
  refine slot_cap_respected hrun ?_ ?_ entitlement (by decide)
  · rw [hclock]
    decide
  · rw [hclock]
    decide

end SlogaBackend.Mls
