import SlogaBackend.Mls.Seating

/-!
# A removed user is not silently re-seated

The server releases a user's seat while the owner's list still names the user. The
release is recorded nowhere: a later list is refused for naming the user because the
stored list and the seat rows disagree. So the rule is about histories. Before the
user is active again, a list without the user has to land, and then a list with the
user; or the user signs a list.

The proof walks back along the run. The seat became active at some step, and only an
applied list makes a seat active; had the list stored before it named the user, it
would have been refused. So that list did not name the user, while the one stored at
the release did, and the change from the one to the other is an applied list without
the user.
-/

namespace SlogaBackend.Mls

open Checks ReferenceDb

variable {prim : Primitives} {db next : ReferenceDb} {op : Op} {c u : String}

/-- The operation stored a new list for the channel, with the given body. -/
def AppliedWrite (prim : Primitives) (db : ReferenceDb) (op : Op) (channelId : String)
    (body : SeatListBody) : Prop :=
  ∃ outcome, (exec prim db op).2 = .ok (.seatList outcome) ∧ outcome.unchanged = false ∧
    outcome.list.id = channelId ∧ SeatListBody.parse outcome.list.body = .ok body

theorem exists_seatListInput {outcome : SeatListWriteOutcome}
    (h : (exec prim db op).2 = .ok (.seatList outcome)) :
    ∃ input, op.seatListInput db = some input := by
  have hperf := perform_of_exec_eq_ok h
  cases op with
  | protectChannel channelId submission now | putSeatList channelId submission allowClaims now =>
    exact ⟨_, rfl⟩
  | upsertChannelEntitlement | createTextMlsGroup | releaseChannelSeatsForUser | createMlsGroup
  | closeMlsGroup | insertMlsCommit | insertMlsTextCommit =>
    obtain ⟨a, -, ha⟩ := map_answer_eq_ok hperf
    cases ha
  | deleteProtectedChannelData | upsertMlsJoinIntent | sweepMlsGroups | pruneMlsTextCommits
  | environment =>
    have ha := (Prod.mk.inj (ok_eq_ok.mp hperf)).2
    cases ha

/-- **What an applied list leaves behind**: the list, and active seats for exactly the
users it names. -/
theorem appliedWrite_spec (hc : Coherent prim db) {body : SeatListBody}
    (h : AppliedWrite prim db op c body) :
    ∃ list, (exec prim db op).1.channelSeatLists.get c = some list ∧
      SeatListBody.parse list.body = .ok body ∧
      ∀ u, ActiveAt (exec prim db op).1.channelSeats c u ↔ u ∈ body.seats := by
  obtain ⟨outcome, hans, hchan, hid, hprs⟩ := h
  obtain ⟨input, hop⟩ := exists_seatListInput hans
  rcases exec_seatList hop with ⟨-, hun⟩ | ⟨plan, channels, hpl, hnx, hout⟩
  · rw [hun outcome hans] at hchan
    cases hchan
  · obtain ⟨body', happ⟩ := hc.appliedPlan hop hpl
    rw [hans] at hout
    obtain rfl := Response.seatList.inj (ok_eq_ok.mp hout)
    have hch : input.channelId = c := happ.row_id.symm.trans hid
    have hbd : body' = body := by
      have hrow : SeatListBody.parse plan.row.body = .ok body' := by
        rw [happ.row_body]
        exact happ.parsed
      rw [show plan.outcome.list = plan.row from rfl, hrow] at hprs
      exact ok.inj hprs
    subst hbd
    rw [hnx]
    refine ⟨plan.row, ?_, hprs, fun u => ?_⟩
    · have hins : (db.channelSeatLists.insert plan.row.id plan.row).get c = some plan.row := by
        rw [get_insert, if_pos (show c = plan.row.id from hid.symm)]
      exact hins
    · rw [← hch]
      exact happ.activeAt_iff

theorem appliedWrite_of_plan (hc : Coherent prim db) {input : SeatListWriteInput}
    (hop : op.seatListInput db = some input) :
    (exec prim db op).1 = db ∨ ∃ body plan, AppliedPlan prim input db.channelSeats body plan ∧
      AppliedWrite prim db op input.channelId body ∧
      (exec prim db op).1.channelSeats = db.channelSeats.insertAll (·.id) plan.seatRows ∧
      (exec prim db op).1.channelSeatLists = db.channelSeatLists.insert plan.row.id plan.row := by
  rcases exec_seatList hop with ⟨heq, -⟩ | ⟨plan, channels, hpl, hnx, hout⟩
  · exact .inl heq
  · obtain ⟨body, happ⟩ := hc.appliedPlan hop hpl
    refine .inr ⟨body, plan, happ, ⟨plan.outcome, hout, rfl, happ.row_id, ?_⟩, ?_, ?_⟩
    · rw [show plan.outcome.list = plan.row from rfl, happ.row_body]
      exact happ.parsed
    · rw [hnx]
      rfl
    · rw [hnx]
      rfl

/-! ## What else moves seats and lists -/

theorem activeAt_before (h : Step prim db op next) (hc : Coherent prim db)
    (hul : isValidUlidId c = true) (hop : op.seatListInput db = none)
    (hact : ActiveAt next.channelSeats c u) : ActiveAt db.channelSeats c u := by
  cases h with
  | same | environment | grant | createCall | close | callCommit | textCommit | intent | sweep
  | prune => exact hact
  | listWrite hsm _ =>
    rw [hop] at hsm
    cases hsm
  | @createText group prepared supersedes list squat hcr =>
    cases squat <;> exact hact
  | release hcl => exact ((activeAt_released hc.seats hul).mp hact).1
  | delete channelId =>
    obtain ⟨seat, hg, hst⟩ := hact
    exact ⟨seat, (get_retain_eq_some.mp hg).1, hst⟩

theorem list_unmoved (h : Step prim db op next) (hop : op.seatListInput db = none)
    (hdel : op ≠ .deleteProtectedChannelData c) :
    next.channelSeatLists.get c = db.channelSeatLists.get c := by
  cases h with
  | same | environment | grant | createCall | close | callCommit | textCommit | intent | sweep
  | prune | release => rfl
  | listWrite hsm _ =>
    rw [hop] at hsm
    cases hsm
  | @createText group prepared supersedes list squat hcr =>
    cases squat <;> rfl
  | delete channelId =>
    have hera : (db.channelSeatLists.erase channelId).get c = db.channelSeatLists.get c := by
      rw [get_erase, if_neg (fun heq => hdel (by rw [heq]))]
    exact hera

/-- A list that makes a seat active names its user; and the user signed it, or the list
stored before did not name the user, or there was none. -/
theorem reseated_by_list (hc : Coherent prim db) (hul : isValidUlidId c = true)
    (hina : ¬ ActiveAt db.channelSeats c u)
    (hacti : ActiveAt (exec prim db op).1.channelSeats c u) :
    ∃ body, AppliedWrite prim db op c body ∧ u ∈ body.seats ∧
      (body.signerUserId = u ∨ ¬ Listed db c u) := by
  cases hop : op.seatListInput db with
  | none => exact absurd (activeAt_before (step_exec prim db op) hc hul hop hacti) hina
  | some input =>
    rcases appliedWrite_of_plan hc hop with heq | ⟨body, plan, happ, hw, hsea, -⟩
    · rw [heq] at hacti
      exact absurd hacti hina
    · rw [hsea] at hacti
      by_cases hch : c = input.channelId
      · subst hch
        have hin : u ∈ body.seats := happ.activeAt_iff.mp hacti
        refine ⟨body, hw, hin, ?_⟩
        have hsto := (readsChannel_of_seatListInput hop).stored_eq
        rcases happ.version_rule with ⟨-, hno⟩ | ⟨-, stored, storedBody, hsm, hprs, hnam⟩
        · refine .inr fun ⟨list, _, hls, _⟩ => ?_
          rw [← hsto, hno] at hls
          cases hls
        · by_cases hu : u ∈ storedBody.seats
          · rcases hnam u hin hu with hsig | hact
            · exact .inl hsig.symm
            · exact absurd hact hina
          · refine .inr fun ⟨list, body', hls, hprs', hu'⟩ => hu ?_
            rw [← hsto, hsm, some.injEq] at hls
            subst hls
            rw [hprs] at hprs'
            rw [ok.inj hprs']
            exact hu'
      · obtain ⟨seat, hg, hst⟩ := hacti
        rw [happ.get_of_ne hul hch] at hg
        exact absurd ⟨seat, hg, hst⟩ hina

theorem unlisted_by_list (hc : Coherent prim db) (hdel : op ≠ .deleteProtectedChannelData c)
    (hlst : Listed db c u) (hunl : ¬ Listed (exec prim db op).1 c u) :
    ∃ body, AppliedWrite prim db op c body ∧ u ∉ body.seats := by
  have hmov : (exec prim db op).1.channelSeatLists.get c ≠ db.channelSeatLists.get c := by
    intro heq
    obtain ⟨list, body, hls, hrs⟩ := hlst
    exact hunl ⟨list, body, heq.trans hls, hrs⟩
  cases hop : op.seatListInput db with
  | none => exact absurd (list_unmoved (step_exec prim db op) hop hdel) hmov
  | some input =>
    rcases appliedWrite_of_plan hc hop with heq | ⟨body, plan, happ, hw, -, hlis⟩
    · rw [heq] at hmov
      exact absurd rfl hmov
    · have hch : c = input.channelId := by
        by_contra hne
        rw [hlis, get_insert, happ.row_id, if_neg hne] at hmov
        exact hmov rfl
      subst hch
      refine ⟨body, hw, fun hin => hunl ?_⟩
      obtain ⟨list, hls, hprs, -⟩ := appliedWrite_spec hc hw
      exact ⟨list, body, hls, hprs, hin⟩

/-! ## The histories -/

variable {h : List (ReferenceDb × Op)}

theorem coherent_run {admits : ReferenceDb → Op → Prop} (hrun : Run (exec prim) admits db h next)
    (hc : Coherent prim db) : Coherent prim next :=
  hrun.invariant (fun _ op _ hs => coherent_exec op hs) hc

/-- A listed, inactive user who is active later was made active by a list that names the
user, and that the user signed or that came after a list without the user. -/
theorem reseated_history (hrun : Run (exec prim) (fun _ _ => True) db h next)
    (hc : Coherent prim db) (hdel : ∀ e ∈ h, e.2 ≠ .deleteProtectedChannelData c)
    (hlst : Listed db c u) (hina : ¬ ActiveAt db.channelSeats c u)
    (hacti : ActiveAt next.channelSeats c u) :
    ∃ h1 m2 op2 h2 body2, h = h1 ++ (m2, op2) :: h2 ∧ ¬ ActiveAt m2.channelSeats c u ∧
      AppliedWrite prim m2 op2 c body2 ∧ u ∈ body2.seats ∧
      (body2.signerUserId = u ∨ ∃ h11 m1 op1 h12 body1, h1 = h11 ++ (m1, op1) :: h12 ∧
        AppliedWrite prim m1 op1 c body1 ∧ u ∉ body1.seats) := by
  have hul : isValidUlidId c = true := by
    obtain ⟨list, -, hls, -⟩ := hlst
    exact (hc.lists c list hls).channel_ulid
  obtain ⟨h1, m2, op2, h2, rfl, -, hin2, hact2⟩ :=
    hrun.exists_change (P := fun s => ActiveAt s.channelSeats c u) hina hacti
  obtain ⟨hrun2, -, -⟩ := hrun.split_at
  have hc2 : Coherent prim m2 := coherent_run hrun2 hc
  obtain ⟨body2, hw2, hnam2, hwhy⟩ := reseated_by_list hc2 hul hin2 hact2
  refine ⟨h1, m2, op2, h2, body2, rfl, hin2, hw2, hnam2, ?_⟩
  rcases hwhy with hsig | hunl
  · exact .inl hsig
  · -- the list stored before the re-seating one had dropped the user
    obtain ⟨h11, m1, op1, h12, rfl, -, hls1, hunli1⟩ :=
      hrun2.exists_change (P := fun s => ¬ Listed s c u) (not_not.mpr hlst) hunl
    obtain ⟨hrun1, -, -⟩ := hrun2.split_at
    have hkp : op1 ≠ .deleteProtectedChannelData c := hdel (m1, op1) (by simp)
    obtain ⟨body1, hw1, hout1⟩ :=
      unlisted_by_list (coherent_run hrun1 hc) hkp (not_not.mp hls1) hunli1
    exact .inr ⟨h11, m1, op1, h12, body1, rfl, hw1, hout1⟩

/-- **A removed user is not silently re-seated.** Along every run from the empty store:
when a release frees the active seat of a user whom the stored list names, and the
channel's data is not deleted afterwards, the user is active again only by an applied
list that names the user, and that is signed by the user or comes after an applied list
without the user. And after every applied list the users with an active seat are
exactly those the stored list names. -/
theorem released_user_not_reseated {h : List (ReferenceDb × Op)}
    (hrun : Run (exec prim) (fun _ _ => True) .empty h db) :
    (∀ h₁ m serverId now h₂ c u, h = h₁ ++ (m, .releaseChannelSeatsForUser u serverId now) :: h₂ →
      Listed m c u → ActiveAt m.channelSeats c u →
      ¬ ActiveAt (exec prim m (.releaseChannelSeatsForUser u serverId now)).1.channelSeats c u →
      (∀ e ∈ h₂, e.2 ≠ .deleteProtectedChannelData c) → ActiveAt db.channelSeats c u →
      ∃ h₃ m₂ op₂ h₄ body₂, h₂ = h₃ ++ (m₂, op₂) :: h₄ ∧ ¬ ActiveAt m₂.channelSeats c u ∧
        AppliedWrite prim m₂ op₂ c body₂ ∧ u ∈ body₂.seats ∧
        (body₂.signerUserId = u ∨ ∃ h₅ m₁ op₁ h₆ body₁, h₃ = h₅ ++ (m₁, op₁) :: h₆ ∧
          AppliedWrite prim m₁ op₁ c body₁ ∧ u ∉ body₁.seats)) ∧
    ∀ m op c body, (m, op) ∈ h → AppliedWrite prim m op c body →
      ∃ list, (exec prim m op).1.channelSeatLists.get c = some list ∧
        SeatListBody.parse list.body = .ok body ∧
        ∀ u, ActiveAt (exec prim m op).1.channelSeats c u ↔ u ∈ body.seats := by
  refine ⟨?_, ?_⟩
  · intro h₁ m serverId now h₂ c u heq hlisted _ hreleased hdelete hactive
    subst heq
    obtain ⟨hrun₁, -, hrun₂⟩ := hrun.split_at
    have hc : Coherent prim m := coherent_of_run hrun₁
    have hstill : Listed (exec prim m (.releaseChannelSeatsForUser u serverId now)).1 c u := by
      obtain ⟨list, body, hlist, hrest⟩ := hlisted
      have hsame := list_unmoved (step_exec prim m (.releaseChannelSeatsForUser u serverId now))
        rfl (c := c) (by simp)
      exact ⟨list, body, hsame.trans hlist, hrest⟩
    exact reseated_history hrun₂ (coherent_exec _ hc) hdelete hstill hreleased hactive
  · intro m op c body hmem hwrite
    obtain ⟨h₁, h₂, rfl⟩ := append_of_mem hmem
    obtain ⟨hrun₁, -, -⟩ := hrun.split_at
    exact appliedWrite_spec (coherent_of_run hrun₁) hwrite

open Sample

set_option maxRecDepth 10000 in
/-- The owner retries the genesis list, which names the guest, after the guest's seat was
released: the guest stays inactive. -/
theorem released_user_not_reseated_retry :
    ¬ ActiveAt releasedStore.channelSeats channelId guest.userId := by
  intro hactive
  obtain ⟨h₁, hrun₁⟩ := admitted_reachable
  have hrun : Run (exec primitives) (fun _ _ => True) .empty (h₁ ++ [(admittedStore,
          .releaseChannelSeatsForUser guest.userId none (seconds 4)),
        (releasedStore,
          .protectChannel channelId genesis (seconds 5))])
      releasedStore := by
    refine (hrun₁.mono fun _ _ _ => trivial).append (Run.cons trivial ?_)
    rw [release_step]
    refine Run.cons trivial ?_
    rw [retry_step]
    exact Run.nil _
  obtain ⟨h₃, m₂, op₂, h₄, body₂, heq, -, hwrite, -⟩ :=
    (released_user_not_reseated hrun).1 h₁ admittedStore none (seconds 4)
      [(releasedStore,
        .protectChannel channelId genesis (seconds 5))]
      channelId guest.userId rfl
      ⟨genesisRow, genesisBody, by decide, parse_genesis, by decide⟩
      ⟨seat guest.userId, by decide, rfl⟩
      (by
        rw [release_step]
        rintro ⟨seat, hseat, hact⟩
        have hget : releasedStore.channelSeats.get
            (ChannelSeat.compositeId channelId guest.userId) =
            some Sample.releasedSeat := by
          decide
        rw [hget] at hseat
        rw [← some.inj hseat] at hact
        exact absurd hact (by decide))
      (by simp) hactive
  obtain ⟨outcome, hanswer, hchanged, -⟩ := hwrite
  have hretry : (m₂, op₂) = (releasedStore,
      .protectChannel channelId genesis (seconds 5)) := by
    have hmem : (m₂, op₂) ∈ [(releasedStore,
        Op.protectChannel channelId genesis (seconds 5))] := by
      rw [heq]
      simp
    exact mem_singleton.mp hmem
  cases hretry
  rw [retry_step] at hanswer
  rw [← Response.seatList.inj (ok_eq_ok.mp hanswer)] at hchanged
  exact absurd hchanged (by simp [SeatListWriteDecision.outcome])

/-! ## The lists of a channel -/

/-- The row that takes the place of another: the next version, and handovers added at the end. -/
def SeatList.Succeeds (row stored : SeatList) : Prop :=
  row.version = stored.version + 1 ∧ stored.handovers <+: row.handovers

theorem planSeatListWrite_succeeds {input : SeatListWriteInput} {plan : SeatListWritePlan}
    (h : planSeatListWrite prim input = .ok (.apply plan)) :
    plan.row.id = input.channelId ∧ ∀ stored ∈ input.stored, plan.row.Succeeds stored := by
  unfold planSeatListWrite at h
  rw [bind_eq_ok] at h
  obtain ⟨body, -, h⟩ := h
  rw [bind_eq_ok] at h
  obtain ⟨rule, hrl, h⟩ := h
  cases rule with
  | some stored => exact absurd h (by simp [pure, Except.pure])
  | none =>
    simp only [bind_eq_ok, pure_eq_ok] at h
    obtain ⟨plan', h, heq⟩ := h
    obtain rfl : plan' = plan := by simpa using heq
    simp only [planApply, appendHandover, bind_eq_ok, refuseIf_eq_ok, pure_eq_ok] at h
    obtain ⟨_, -, _, -, _, -, _, -, _, -, _, -, _, ⟨appended, -, _, -, rfl⟩, _, -, rfl⟩ := h
    refine ⟨rfl, fun stored hst => ?_⟩
    rw [Option.mem_def] at hst
    refine ⟨?_, by rw [hst]; exact List.prefix_append _ _⟩
    unfold versionRule at hrl
    rw [hst] at hrl
    cases hkd : input.kind with
    | protect => simp [hkd] at hrl
    | put =>
      simp only [hkd] at hrl
      split at hrl
      · cases hrl
      · simp only [bind_eq_ok, refuseIf_eq_ok, not_not] at hrl
        obtain ⟨_, hver, -⟩ := hrl
        unfold checkedSuccI64 at hver
        split at hver
        · exact some.inj hver
        · cases hver

variable {list : SeatList}

theorem list_step (hdel : op ≠ .deleteProtectedChannelData c)
    (hget : db.channelSeatLists.get c = some list) :
    (exec prim db op).1.channelSeatLists.get c = some list ∨
      ∃ list', (exec prim db op).1.channelSeatLists.get c = some list' ∧ list'.Succeeds list := by
  cases hop : op.seatListInput db with
  | none => exact .inl ((list_unmoved (step_exec prim db op) hop hdel).trans hget)
  | some input =>
    rcases exec_seatList hop with ⟨heq, -⟩ | ⟨plan, channels, hpl, hnx, -⟩
    · rw [heq]
      exact .inl hget
    · obtain ⟨hid, hsuc⟩ := planSeatListWrite_succeeds hpl
      have hls : (exec prim db op).1.channelSeatLists =
          db.channelSeatLists.insert plan.row.id plan.row := by
        rw [hnx]
        rfl
      rw [hls, get_insert, hid]
      split
      · rename_i hc
        subst hc
        exact .inr ⟨_, rfl, hsuc _ ((readsChannel_of_seatListInput hop).stored_eq.trans hget)⟩
      · exact .inl hget

/-- **The lists of a channel are one chain.** The version counts the writes that changed the list, and
no handover is dropped. -/
theorem seat_lists_succeed
    (hrun : Run (exec prim) (fun _ op => op ≠ .deleteProtectedChannelData c) db h next)
    (hget : db.channelSeatLists.get c = some list) :
    ∃ list', next.channelSeatLists.get c = some list' ∧ list.handovers <+: list'.handovers ∧
      list'.version = list.version + h.countP fun e =>
        (exec prim e.1 e.2).1.channelSeatLists.get c ≠ e.1.channelSeatLists.get c := by
  induction hrun generalizing list with
  | nil => exact ⟨list, hget, List.prefix_rfl, by simp⟩
  | @cons db next op h hdel _ ih =>
    rcases @list_step prim _ _ _ _ hdel hget with hsm | ⟨mid, hmid, hver, hpre⟩
    · obtain ⟨list', hlst, hcha, hcou⟩ := ih hsm
      refine ⟨list', hlst, hcha, ?_⟩
      rw [List.countP_cons_of_neg (by simp [hsm, hget])]
      exact hcou
    · obtain ⟨list', hlst, hcha, hcou⟩ := ih hmid
      refine ⟨list', hlst, hpre.trans hcha, ?_⟩
      have hne : mid ≠ list := by
        rintro rfl
        omega
      rw [List.countP_cons_of_pos (by simp [hmid, hget, hne])]
      omega

namespace Sample

/-- The owner's earlier device hands the list over to the present one. -/
def handover : SignedHandover where
  body := "sloga-owner-handover-v1\nv:1\nchannel_id:" ++ channelId ++ "\nfrom_user_id:" ++
    owner.userId ++ "\nfrom_device_id:0123456789abcdef0123456789abcdef\nfrom_identity_key:" ++
    "A6EHv/POEL4dcN0Y50vAmWfk1jCbpQ1fHdyGZBJVMbg\nto_user_id:" ++ owner.userId ++
    "\nto_device_id:" ++ owner.deviceId ++ "\nto_identity_key:" ++
    "zRSzf5VulTGU/3+3Oz2B3MVh1hp1OAlLfD4aZD7l86o\nissued_at:5"
  signature := signature

/-- The second list, with the handover. -/
def second : SeatListSubmission :=
  ⟨listBody "2" bothSeats, signature, owner.deviceId, some handover⟩

def secondRow : SeatList :=
  ⟨channelId, 2, second.body, owner.userId, owner.deviceId, signature, [handover],
    seconds 5⟩

/-- The write of the second list. -/
def putSecond : Op := .putSeatList channelId second false (seconds 5)

set_option maxRecDepth 10000 in
theorem plan_second : ∃ sha256, planSeatListWrite primitives
    (protectedStore.seatListWriteInput .put channelId second false (seconds 5)) =
      .ok (.apply ⟨secondRow, [], [], [], [], sha256⟩) := by
  have hbody : SeatListBody.parse second.body = .ok { genesisBody with version := 2 } :=
    parse_list (.inr ⟨rfl, rfl⟩)
  have hsubmitted : checkSubmission primitives (protectedStore.seatListWriteInput .put channelId
      second false (seconds 5)) = .ok { genesisBody with version := 2 } := by
    unfold checkSubmission
    simp only [bind_eq_ok, refuseIf_eq_ok, pure_eq_ok]
    exact ⟨_, hbody, (), by decide, (), by decide, List.replicate 64 0, by decide, rfl⟩
  have hremoved : seatListRemovedUsers { genesisBody with version := 2 } (some genesisRow)
      (seatsOf protectedStore.channelSeats channelId) = .ok [] := by
    unfold seatListRemovedUsers
    simp only [bind_eq_ok]
    exact ⟨genesisBody, parse_genesis, by decide⟩
  obtain ⟨sha256, hsha256⟩ : ∃ sha256, secondRow.commitAdSha256 primitives = .ok sha256 := by
    unfold SeatList.commitAdSha256
    simp only [bind_eq_ok, pure_eq_ok]
    exact ⟨_, _, rfl, rfl⟩
  have hplan : planApply primitives (protectedStore.seatListWriteInput .put channelId second false
      (seconds 5)) { genesisBody with version := 2 } =
        .ok ⟨secondRow, [], [], [], [], sha256⟩ := by
    unfold planApply
    simp only [bind_eq_ok, refuseIf_eq_ok, pure_eq_ok]
    exact ⟨[], hremoved, (), by decide, (), by decide, [], by decide, (), by decide, [], by decide,
      [handover], by decide, sha256, hsha256, rfl⟩
  refine ⟨sha256, ?_⟩
  unfold planSeatListWrite
  rw [bind_eq_ok]
  exact ⟨_, hsubmitted, bind_eq_ok.mpr ⟨none, rfl, bind_eq_ok.mpr ⟨_, hplan, rfl⟩⟩⟩

theorem second_stored :
    (exec primitives protectedStore putSecond).1.channelSeatLists.get channelId = some secondRow := by
  obtain ⟨sha256, hplan⟩ := plan_second
  have hput : protectedStore.putSeatList primitives channelId second false (seconds 5) =
      .ok (protectedStore.applyDecision none (.apply ⟨secondRow, [], [], [], [], sha256⟩),
        SeatListWritePlan.outcome ⟨secondRow, [], [], [], [], sha256⟩) := by
    unfold putSeatList
    simp only [bind_eq_ok]
    exact ⟨_, hplan, (), rfl, rfl⟩
  have hperformed : perform primitives protectedStore putSecond = .ok
      (protectedStore.applyDecision none (.apply ⟨secondRow, [], [], [], [], sha256⟩),
        .seatList (SeatListWritePlan.outcome ⟨secondRow, [], [], [], [], sha256⟩)) := by
    rw [putSecond, perform, hput]
    rfl
  rw [exec_of_perform primitives hperformed]
  exact get_insert_self

end Sample

/-- The second list is one change more, and its handover one link more. -/
theorem seat_lists_succeed_handed_over : ∃ list', (exec primitives protectedStore
    putSecond).1.channelSeatLists.get channelId = some list' ∧
      list'.version = genesisRow.version + 1 ∧
      genesisRow.handovers <+: list'.handovers ∧ list'.handovers = [handover] := by
  have hget : protectedStore.channelSeatLists.get channelId = some genesisRow := rfl
  obtain ⟨list', hlist, hchain, hversion⟩ := seat_lists_succeed
    (.cons (i := putSecond) nofun (.nil (exec primitives _ _).1)) hget
  rw [List.countP_cons_of_pos (by simp [second_stored, hget, secondRow,
    genesisRow])] at hversion
  refine ⟨list', hlist, hversion, hchain, ?_⟩
  rw [second_stored] at hlist
  rw [← some.inj hlist]
  rfl

end SlogaBackend.Mls
