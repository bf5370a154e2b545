import SlogaBackend.Scheduled.Effects

/-!
# One call, in the ledger

`Kept` says that a call of an instance can be entered in the ledger: the entry is a `Change`, the
ledger is right about the store and the instance after it, and a delivery or a cancellation is entered
as what it is. There is one lemma for each kind of turn; `Turn.kept` puts them together.
-/

namespace SlogaBackend.Scheduled

open Files

/-- A call of an instance, entered in the ledger. -/
structure Kept (guard : Prop) (pid : Nat) (c : Call) (l : Ledger) (s s' : Store) (l' : Ledger)
    (act' : Activity) : Prop where
  change : Change guard pid l l' s.files s'.files
  accounts : Accounts guard l' s'
  handles : Handles guard l' s'.files pid act'
  fresh : ∀ id, l'.phase id ≠ .fresh → l.phase id ≠ .fresh
  delivered : ∀ id, c.deliversRow s id → l.phase id = .claimed pid ∧ l'.phase id = .delivered
  cancelled : ∀ id, c.cancelsRow s id → l'.phase id = .ended

section Entries

variable {guard guard' : Prop} {l l' : Ledger} {s s' : Store} {pid : Nat} {act act' : Activity}
  {c : Call} {files : Table String File} {id a : String} {o : RowOrder} {ids : List String}

theorem Handles.unclaimed (h : Handles guard l files pid act) (hil : act.delivering = none)
    (id : String) : l.phase id ≠ .claimed pid := by
  intro hclaim
  obtain ⟨row, ids, hdeli, -⟩ := h.claimed id hclaim
  rw [hil] at hdeli
  cases hdeli

theorem Handles.of_idle (hdraf : act.drafting = none) (hil : act.delivering = none)
    (hunc : ∀ id, l.phase id ≠ .claimed pid) (hhn : ∀ row ∈ act.hand, Known l row)
    (how : ∀ id ids, (id, ids) ∈ act.owed →
      (∀ a ∈ ids, l.owner a = some id) ∧ (guard → l.phase id = .ended))
    (hclos : ∀ id, act.closing = some id → l.phase id = .ended ∨ l.phase id = .delivered) :
    Handles guard l files pid act where
  hand := hhn
  drafting id ids h := by
    rw [hdraf] at h
    cases h
  delivering row ids h := by
    rw [hil] at h
    cases h
  claimed id h := absurd h (hunc id)
  owed := how
  closing := hclos

theorem Handles.empty (hunc : ∀ id, l.phase id ≠ .claimed pid) : Handles guard l files pid {} :=
  .of_idle rfl rfl hunc (fun _ hmem => absurd hmem not_mem_nil)
    (fun _ _ hmem => absurd hmem not_mem_nil) nofun

theorem Handles.refile (h : Handles guard l s.files pid act)
    (hchg : Change guard' pid l l s.files s'.files) (hgd : guard' → guard) :
    Handles guard' l s'.files pid act where
  hand := h.hand
  drafting := h.drafting
  delivering row ids hdeli := by
    obtain ⟨hph, hkn, hids⟩ := h.delivering row ids hdeli
    refine ⟨hph, hkn, fun a ha => ⟨(hids a ha).1, fun hg => ?_⟩⟩
    refine hchg.inOrder ((hids a ha).2 (hgd hg)) hg fun id hown hov => ?_
    rw [(hkn.attachments a).mp (hids a ha).1] at hown
    rw [← some.inj hown, hph] at hov
    cases hov
  claimed := h.claimed
  owed id ids hmem := ⟨(h.owed id ids hmem).1, fun hg => (h.owed id ids hmem).2 (hgd hg)⟩
  closing := h.closing

theorem Handles.mono (h : Handles guard l s.files pid act) (hgd : guard' → guard) :
    Handles guard' l s.files pid act := h.refile (.refl guard' pid l s.files) hgd

theorem Accounts.mono (h : Accounts guard l s) (hgd : guard' → guard) : Accounts guard' l s :=
  h.frame (.refl guard' 0 l s.files) hgd h.rows rfl fun _ => id

theorem Kept.quiet (hacc : Accounts guard l s) (hgd : guard' → guard)
    (hhnd : Handles guard' l s.files pid act') (hs : s' = s)
    (hdeliv : ∀ id, ¬ c.deliversRow s id) (hcan : ∀ id, ¬ c.cancelsRow s id) :
    Kept guard' pid c l s s' l act' := by
  subst hs
  exact ⟨.refl guard' pid l _, hacc.mono hgd, hhnd, fun _ h => h,
    fun id h => absurd h (hdeliv id), fun id h => absurd h (hcan id)⟩

theorem not_cancelsRow (hc : ∀ row, c.cancels row = false) (id : String) : ¬ c.cancelsRow s id := by
  rintro ⟨row, -, -, hcanc⟩
  rw [hc row] at hcanc
  cases hcanc

theorem phase_ne_of_setPhase {p q : Phase} (hp : p ≠ q) (hl : l.phase id ≠ q) {id' : String} :
    (l.setPhase id p).phase id' = q ↔ l.phase id' = q := by
  by_cases heq : id' = id
  · subst heq
    rw [Ledger.setPhase_phase_self]
    exact iff_of_false hp hl
  · rw [Ledger.setPhase_phase_of_ne heq]

/-! ### Claiming -/

section

variable {row : ScheduledMessage} (hacc : Accounts guard l s) (hgd : guard' → guard)
include hacc hgd

theorem Kept.claims {rows : List ScheduledMessage}
    (hhnd : Handles guard l s.files pid { hand := row :: rows })
    (hans : (perform o pid (.claimScheduledMessage row.id) s).2 = true) :
    Kept guard' pid (.claimScheduledMessage row.id) l s
      (perform o pid (.claimScheduledMessage row.id) s).1 (l.setPhase row.id (.claimed pid))
      { hand := rows, delivering := some (row, []) } := by
  obtain ⟨⟨stored, hget, hpend⟩, hst⟩ := claim_eq_true hans
  have hph := hacc.rows.pending row.id stored hget hpend
  have hchg : Change guard' pid l (l.setPhase row.id (.claimed pid)) s.files s.files :=
    .setPhase guard' s.files (by rw [hph]; exact .claims)
  have hkn : ∀ row' ∈ row :: rows, Known (l.setPhase row.id (.claimed pid)) row' :=
    fun row' hmem => hchg.known_row hacc.owned (hhnd.hand row' hmem)
  rw [hst]
  refine ⟨hchg, ?_, ?_, fun id hid hfr => ?_, fun _ h => h.elim,
    fun id h => absurd h (not_cancelsRow (fun _ => rfl) id)⟩
  · refine hacc.frame hchg hgd ?_ rfl fun id => ?_
    · refine hacc.rows.setStatus nofun rfl ?_ fun key hkey => Ledger.setPhase_phase_of_ne hkey
      rw [Ledger.setPhase_phase_self]
      exact trivial
    · exact (phase_ne_of_setPhase (p := .claimed pid) (q := .delivered) nofun (by rw [hph]; exact nofun)).mp
  · refine ⟨fun row' hmem => hkn row' (mem_cons_of_mem _ hmem), (fun _ _ hno => by cases hno), ?_, ?_,
      fun _ _ hmem => absurd hmem not_mem_nil, nofun⟩
    · intro row' ids heq
      cases some.inj heq
      exact ⟨Ledger.setPhase_phase_self, hkn row mem_cons_self,
        fun a ha => absurd ha not_mem_nil⟩
    · intro id hid
      by_cases heq : id = row.id
      · exact ⟨row, [], rfl, heq.symm⟩
      · rw [Ledger.setPhase_phase_of_ne heq] at hid
        exact absurd hid (hhnd.unclaimed rfl id)
  · exact hid ((phase_ne_of_setPhase (p := .claimed pid) (q := .fresh) nofun (by rw [hph]; exact nofun)).mpr hfr)

/-! ### Delivering -/

theorem Kept.delivers {hand : List ScheduledMessage} {message : Message}
    (hhnd : Handles guard l s.files pid { hand, delivering := some (row, row.attachments) })
    (hnon : message.nonce = some row.id) (hids : message.attachmentIds = row.attachments)
    (hans : (perform o pid (.insertMessage message) s).2 = .ok ()) :
    Kept guard' pid (.insertMessage message) l s (perform o pid (.insertMessage message) s).1
      (l.setPhase row.id .delivered) { hand, closing := some row.id } := by
  obtain ⟨hph, hkn, hord⟩ := hhnd.delivering row row.attachments rfl
  have hchg : Change guard' pid l (l.setPhase row.id .delivered) s.files s.files :=
    .setPhase guard' s.files (by rw [hph]; exact .delivers)
  have hoth : ∀ {id}, id ≠ row.id → (l.setPhase row.id .delivered).phase id = l.phase id :=
    fun hne => Ledger.setPhase_phase_of_ne hne
  obtain ⟨-, -, error, herr⟩ | ⟨hfre, hst, -⟩ := insertMessage_cases o pid s message
  · rw [hans] at herr
    cases herr
  rw [hst]
  refine ⟨hchg, ⟨?_, ⟨?_, ?_, ?_⟩, hacc.fileId, hacc.owned, ?_⟩, ?_, ?_, ?_,
    fun id h => absurd h (not_cancelsRow (fun _ => rfl) id)⟩
  · exact hacc.rows.setPhase trivial (by rw [hph]; exact nofun)
  · refine forall_insert (P := fun _ (message : Message) => ∀ a ∈ message.attachmentIds,
      InUse s.files a ∧ (guard' → InOrder s.files a)) (fun key message' hget a ha => ?_) fun a ha => ?_
    · exact (hacc.messages.inUse key message' hget a ha).imp_right fun h hg => h (hgd hg)
    · rw [hids] at ha
      exact ⟨hacc.owned a row.id ((hkn.attachments a).mp ha), fun hg => (hord a ha).2 (hgd hg)⟩
  · refine forall_insert (P := fun _ (message : Message) => ∀ a ∈ message.attachmentIds,
      ∀ id, l.owner a = some id → (l.setPhase row.id .delivered).phase id = .delivered)
      (fun key message' hget a ha id hid => ?_) fun a ha id hid => ?_
    · exact (hchg.moves id).delivered (hacc.messages.owner key message' hget a ha id hid)
    · rw [hids, hkn.attachments a, hid] at ha
      rw [some.inj ha]
      exact Ledger.setPhase_phase_self
  · intro id hid
    by_cases heq : id = row.id
    · refine ⟨message.id, message, by rw [get_insert_self], fun a ha => ?_⟩
      rw [hids, hkn.attachments a, ← heq]
      exact ha
    · rw [hoth heq] at hid
      obtain ⟨key, message', hget, hall⟩ := hacc.messages.delivered id hid
      refine ⟨key, message', ?_, hall⟩
      rw [get_insert, if_neg]
      · exact hget
      · rintro rfl
        rw [hfre] at hget
        cases hget
  · intro id hid a
    exact hacc.fresh id ((hchg.moves id).of_fresh hid) a
  · refine .of_idle rfl rfl (fun id hid => ?_)
      (fun row' hmem => hchg.known_row hacc.owned (hhnd.hand row' hmem))
      (fun _ _ hmem => absurd hmem not_mem_nil) fun id hid => .inr ?_
    · by_cases heq : id = row.id
      · rw [heq, Ledger.setPhase_phase_self] at hid
        cases hid
      · rw [hoth heq] at hid
        obtain ⟨row', ids, hdeli, hrow'⟩ := hhnd.claimed id hid
        cases some.inj hdeli
        exact heq hrow'.symm
    · rw [← some.inj hid]
      exact Ledger.setPhase_phase_self
  · intro id hid hfr
    by_cases heq : id = row.id
    · rw [heq, hph] at hfr
      cases hfr
    · exact hid (by rw [hoth heq, hfr])
  · rintro id ⟨hid, -⟩
    rw [hnon] at hid
    rw [← some.inj hid]
    exact ⟨hph, Ledger.setPhase_phase_self⟩

/-! ### Ending rows -/

/-- The rows that a call cancels. -/
def endedBy (c : Call) (s : Store) (id : String) : Bool :=
  (s.scheduledMessages.get id).any fun row => row.status == .pending && c.cancels row

omit hacc hgd in
theorem endedBy_iff : endedBy c s id = true ↔ c.cancelsRow s id := by
  unfold endedBy Call.cancelsRow
  rw [Option.any_eq_true]
  constructor
  · rintro ⟨row, hget, hrow⟩
    rw [and_eq_true, beq_iff_eq] at hrow
    exact ⟨row, hget, hrow⟩
  · rintro ⟨row, hget, hrow⟩
    refine ⟨row, hget, ?_⟩
    rw [and_eq_true, beq_iff_eq]
    exact hrow

theorem Kept.cancels (hunc : ∀ id, l.phase id ≠ .claimed pid) (hfil : s'.files = s.files)
    (hmes : s'.messages = s.messages) (hsub : ∀ key row, s'.scheduledMessages.get key = some row →
      s.scheduledMessages.get key = some row ∧ endedBy c s key = false)
    (hqui : ∀ id, ¬ c.deliversRow s id)
    (hact : act' = { owed := act'.owed })
    (how : ∀ id ids, (id, ids) ∈ act'.owed →
      (∀ a ∈ ids, l.owner a = some id) ∧ endedBy c s id = true) :
    Kept guard' pid c l s s' (l.endAll (endedBy c s)) act' := by
  have hcas : ∀ id, (endedBy c s id = true ∧ l.phase id = .pending ∧
      (l.endAll (endedBy c s)).phase id = .ended) ∨
        (endedBy c s id = false ∧ (l.endAll (endedBy c s)).phase id = l.phase id) := by
    intro id
    cases hend : endedBy c s id with
    | false => exact .inr ⟨rfl, Ledger.endAll_phase_of_not hend⟩
    | true =>
      obtain ⟨row, hget, hpend, -⟩ := endedBy_iff.mp hend
      exact .inl ⟨rfl, hacc.rows.pending id row hget hpend, Ledger.endAll_phase hend⟩
  have hoth : ∀ id p, p ≠ Phase.ended → (l.endAll (endedBy c s)).phase id = p → l.phase id = p := by
    intro id p hp hph
    rcases hcas id with ⟨-, -, hov⟩ | ⟨-, hsm⟩
    · rw [hov] at hph
      exact absurd hph.symm hp
    · rw [← hsm, hph]
  have hchg : Change guard' pid l (l.endAll (endedBy c s)) s.files s'.files := by
    rw [hfil]
    refine ⟨fun id => ?_, fun a => .inl rfl, (Change.refl guard' pid l s.files).kept,
      (Change.refl guard' pid l s.files).known⟩
    rcases hcas id with ⟨-, hpend, hov⟩ | ⟨-, hsm⟩
    · rw [hpend, hov]
      exact .cancels
    · rw [hsm]
      exact .stays _
  refine ⟨hchg, ?_, ?_, fun id hid hfr => ?_, fun id h => absurd h (hqui id),
    fun id h => Ledger.endAll_phase (endedBy_iff.mpr h)⟩
  · refine hacc.frame hchg hgd ?_ hmes fun id hid => hoth id _ nofun hid
    exact hacc.rows.mono (fun key row hget => (hsub key row hget).1) rfl
      fun key row hget => Ledger.endAll_phase_of_not (hsub key row hget).2
  · rw [hact]
    refine .of_idle rfl rfl (fun id hid => hunc id (hoth id _ nofun hid))
      (fun row hmem => absurd hmem not_mem_nil) (fun id ids hmem => ?_) nofun
    obtain ⟨hown, hend⟩ := how id ids hmem
    exact ⟨hown, fun _ => Ledger.endAll_phase hend⟩
  · rcases hcas id with ⟨-, hpend, -⟩ | ⟨-, hsm⟩
    · rw [hpend] at hfr
      cases hfr
    · exact hid (by rw [hsm, hfr])

theorem Kept.cascades {removes : ScheduledMessage → Bool} (hhnd : Handles guard l s.files pid {})
    (hc : ∀ row, c.cancels row = removes row) (hqui : ∀ id, ¬ c.deliversRow s id)
    (hs : s' = s.remove removes) :
    Kept guard' pid c l s s' (l.endAll (endedBy c s)) (Activity.owingAll {}
      (o.order (s.scheduledMessages.values.filter (·.isPendingIn removes)))) := by
  subst hs
  refine .cancels hacc hgd (hhnd.unclaimed rfl) rfl rfl ?_ hqui ?_ ?_
  · intro key row hget
    obtain ⟨hget, hkee⟩ := get_retain_eq_some.mp hget
    have hkee : removes row = false := by simpa using hkee
    refine ⟨hget, ?_⟩
    unfold endedBy
    rw [hget, any_some, hc row, hkee, Bool.and_false]
  · ext1
    · rw [Activity.owingAll_hand]
    · rw [Activity.owingAll_drafting]
    · rw [Activity.owingAll_delivering]
    · rfl
    · rw [Activity.owingAll_closing]
  · intro id ids hmem
    rcases Activity.mem_owingAll hmem with hold | ⟨row, hrow, heq, -⟩
    · exact absurd hold not_mem_nil
    cases heq
    obtain ⟨hsto, hpend⟩ := mem_filter.mp (o.mem.mp hrow)
    obtain ⟨key, hget⟩ := mem_values.mp hsto
    obtain rfl := hacc.rows.id key row hget
    unfold ScheduledMessage.isPendingIn at hpend
    rw [and_eq_true, beq_iff_eq] at hpend
    refine ⟨fun a ha => (hacc.rows.attachments _ row hget a).mp ha, ?_⟩
    unfold endedBy
    rw [hget, any_some, hc row, hpend.1, hpend.2]
    rfl

theorem Kept.cancelsPending (hhnd : Handles guard l s.files pid { hand := [row] })
    (hans : (perform o pid (.deleteScheduledMessageIfPending row.id) s).2 = true) :
    Kept guard' pid (.deleteScheduledMessageIfPending row.id) l s
      (perform o pid (.deleteScheduledMessageIfPending row.id) s).1
      (l.endAll (endedBy (.deleteScheduledMessageIfPending row.id) s))
      (Activity.owing {} row.id row.attachments) := by
  obtain ⟨⟨stored, hget, hpend⟩, hst⟩ := deleteIfPending_eq_true hans
  have hid := hacc.rows.id row.id stored hget
  rw [hst]
  refine .cancels hacc hgd (hhnd.unclaimed rfl) rfl rfl ?_ (fun _ h => h.elim) ?_ ?_
  · intro key row' hget'
    rw [get_erase] at hget'
    split at hget'
    · cases hget'
    rename_i hne
    refine ⟨hget', ?_⟩
    unfold endedBy
    rw [hget', any_some]
    have hkey : (row'.id == row.id) = false := by
      rw [hacc.rows.id key row' hget']
      exact beq_eq_false_iff_ne.mpr hne
    show (row'.status == .pending && row'.id == row.id) = false
    rw [hkey, Bool.and_false]
  · ext1
    · rw [Activity.owing_hand]
    · rw [Activity.owing_drafting]
    · rw [Activity.owing_delivering]
    · rfl
    · rw [Activity.owing_closing]
  · intro id ids hmem
    rcases Activity.mem_owing hmem with hold | ⟨heq, -⟩
    · exact absurd hold not_mem_nil
    cases heq
    have hkn := hhnd.hand row mem_cons_self
    refine ⟨fun a ha => (hkn.attachments a).mp ha, ?_⟩
    unfold endedBy
    rw [hget, any_some, hpend]
    show (ScheduledMessageStatus.pending == .pending && stored.id == row.id) = true
    rw [hid, beq_self_eq_true, beq_self_eq_true]
    rfl

theorem Kept.drops (hhnd : Handles guard l s.files pid { drafting := some (id, ids) })
    (hqui : ∀ id, ¬ c.deliversRow s id) (hcan : ∀ id, ¬ c.cancelsRow s id) :
    Kept guard' pid c l s s (l.setPhase id .ended) (Activity.owing {} id ids) := by
  obtain ⟨hph, hids⟩ := hhnd.drafting id ids rfl
  have hchg : Change guard' pid l (l.setPhase id .ended) s.files s.files :=
    .setPhase guard' s.files (by rw [hph]; exact .drops)
  have hoth : ∀ p, p ≠ Phase.ended → p ≠ .drafted pid → ∀ id',
      (l.setPhase id .ended).phase id' = p ↔ l.phase id' = p :=
    fun p hp hl id' => phase_ne_of_setPhase hp.symm (by rw [hph]; exact hl.symm)
  refine ⟨hchg, ?_, ?_, fun id' hid hfr => ?_, fun id h => absurd h (hqui id),
    fun id h => absurd h (hcan id)⟩
  · refine hacc.frame hchg hgd ?_ rfl fun id' => (hoth .delivered nofun nofun id').mp
    exact hacc.rows.setPhase trivial (by rw [hph]; exact nofun)
  · refine .of_idle (Activity.owing_drafting _ _ _) (Activity.owing_delivering _ _ _)
      (fun id' hid => ?_) (fun row hmem => ?_) (fun id' ids' hmem => ?_) fun id' hid => ?_
    · rw [hoth (.claimed pid) nofun nofun] at hid
      exact hhnd.unclaimed rfl id' hid
    · rw [Activity.owing_hand] at hmem
      cases hmem
    · rcases Activity.mem_owing hmem with hold | ⟨heq, -⟩
      · exact absurd hold not_mem_nil
      cases heq
      exact ⟨fun a ha => (hids a).mp ha, fun _ => Ledger.setPhase_phase_self⟩
    · rw [Activity.owing_closing] at hid
      cases hid
  · exact hid ((hoth .fresh nofun nofun id').mpr hfr)

/-! ### The other calls -/

theorem Kept.closes
    (hhnd : Handles guard l s.files pid { act with closing := some id }) (hc : Closes c id) :
    Kept guard' pid c l s (perform o pid c s).1 l { act with closing := none } := by
  have hdeliv : ∀ id, ¬ c.deliversRow s id := by cases hc <;> exact fun _ h => h.elim
  have hcan : ∀ id, ¬ c.cancelsRow s id := by cases hc <;> exact not_cancelsRow fun _ => rfl
  have hhnd' : Handles guard' l s.files pid { act with closing := none } :=
    ⟨hhnd.hand, hhnd.drafting, (hhnd.mono hgd).delivering, hhnd.claimed,
      (hhnd.mono hgd).owed, nofun⟩
  rcases perform_closes o pid s hc with hsm | ⟨status, reason, hnot, hst⟩
  · rw [hsm]
    exact .quiet hacc hgd hhnd' rfl hdeliv hcan
  · rw [hst]
    refine ⟨.refl guard' pid l _, ?_, hhnd', fun _ h => h, fun id h => absurd h (hdeliv id),
      fun id h => absurd h (hcan id)⟩
    refine hacc.frame (.refl guard' pid l s.files) hgd ?_ rfl fun id h => h
    refine hacc.rows.setStatus hnot rfl ?_ fun key _ => rfl
    rcases hhnd.closing id rfl with hov | hdeliv
    · rw [hov]
      exact trivial
    · rw [hdeliv]
      exact trivial

theorem Kept.refiles (hhnd : Handles guard l s.files pid act)
    (hchg : Change guard' pid l l s.files s'.files)
    (hrw : s'.scheduledMessages = s.scheduledMessages) (hmes : s'.messages = s.messages)
    (hdeliv : ∀ id, ¬ c.deliversRow s id) (hcan : ∀ id, ¬ c.cancelsRow s id) :
    Kept guard' pid c l s s' l act :=
  ⟨hchg, hacc.frame hchg hgd (hrw ▸ hacc.rows) hmes fun _ h => h,
    hhnd.refile hchg hgd, fun _ h => h, fun id h => absurd h (hdeliv id),
    fun id h => absurd h (hcan id)⟩

theorem Kept.retargets {newParentId : String} (hhnd : Handles guard l s.files pid act) :
    Kept guard' pid (.retargetAttachment a newParentId) l s
      (perform o pid (.retargetAttachment a newParentId) s).1 l act := by
  cases hget : s.files.get a with
  | none =>
    have hst : (perform o pid (.retargetAttachment a newParentId) s).1 = s := by
      simp only [perform, hget]
    rw [hst]
    exact .quiet hacc hgd (hhnd.mono hgd) rfl (fun _ h => h.elim) (not_cancelsRow fun _ => rfl)
  | some file =>
    have hst : (perform o pid (.retargetAttachment a newParentId) s).1 =
        { s with files := s.files.insert a (retarget newParentId file) } := by
      simp only [perform, hget]
    rw [hst]
    refine .refiles hacc hgd hhnd ⟨fun id => .stays _, fun a => .inl rfl, ?_, ?_⟩
      rfl rfl (fun _ h => h.elim) (not_cancelsRow fun _ => rfl)
    · intro a' file' hget'
      rw [get_insert]
      split
      · rename_i heq
        rw [heq, hget] at hget'
        cases hget'
        refine ⟨_, rfl, rfl, fun hus => ?_, fun _ hnot hdele => ?_⟩
        · unfold retarget
          rwa [Option.isSome_map]
        · rw [show (retarget newParentId file).deleted = file.deleted from rfl, hnot] at hdele
          cases hdele
      · refine ⟨file', hget', rfl, fun h => h, fun _ hnot hdele => ?_⟩
        rw [hnot] at hdele
        cases hdele
    · intro a' file' hget'
      rw [get_insert] at hget'
      split at hget'
      · rename_i heq
        exact ⟨file, heq ▸ hget⟩
      · exact ⟨file', hget'⟩

theorem Kept.releases
    (hhnd : Handles guard l s.files pid { act with owed := (id, ids) :: act.owed }) :
    Kept guard' pid (.markAttachmentsAsDeleted ids) l s
      (perform o pid (.markAttachmentsAsDeleted ids) s).1 l act := by
  obtain ⟨hown, hov⟩ := hhnd.owed id ids mem_cons_self
  have hhnd' : Handles guard l s.files pid act :=
    ⟨hhnd.hand, hhnd.drafting, hhnd.delivering, hhnd.claimed,
      fun id' ids' hmem => hhnd.owed id' ids' (mem_cons_of_mem _ hmem), hhnd.closing⟩
  refine .refiles hacc hgd hhnd' ⟨fun id => .stays _, fun a => .inl rfl, ?_,
    fun a file' => known_of_markDeleted⟩ (markDeleted_rest s ids).1 (markDeleted_rest s ids).2
    (fun _ h => h.elim) (not_cancelsRow fun _ => rfl)
  intro a file hget
  obtain ⟨file', hget', hid, hus, hoth⟩ := get_markDeleted ids hget
  refine ⟨file', hget', hid, fun h => hus ▸ h, fun hg hnot hdele => ?_⟩
  by_cases hmem : a ∈ ids
  · exact ⟨id, hown a hmem, hov (hgd hg)⟩
  · rw [hoth hmem, hnot] at hdele
    cases hdele

/-- The sweep releases the attachments of rows in `Sending`; that these are over is for the run to
say. -/
theorem Kept.sweeps {cutoffMs : Int} (hhnd : Handles guard l s.files pid {})
    (hov : guard' → ∀ key row, s.scheduledMessages.get key = some row →
      row.isFinishedBefore cutoffMs = true → row.status = .sending → row.attachments ≠ [] →
        l.phase row.id = .ended) :
    Kept guard' pid (.deleteFinishedScheduledMessagesBefore cutoffMs) l s
      (perform o pid (.deleteFinishedScheduledMessagesBefore cutoffMs) s).1 l
      (Activity.owingAll {} ((perform o pid (.deleteFinishedScheduledMessagesBefore cutoffMs) s).2.filter
        (·.status == .sending))) := by
  refine ⟨.refl guard' pid l _, ?_, ?_, fun _ h => h, fun _ h => h.elim,
    fun id h => absurd h (not_cancelsRow (fun _ => rfl) id)⟩
  · refine hacc.frame (.refl guard' pid l s.files) hgd ?_ rfl fun id h => h
    exact hacc.rows.mono (fun key row hget => (get_retain_eq_some.mp hget).1) rfl
      fun _ _ _ => rfl
  · refine .of_idle (Activity.owingAll_drafting _ _) (Activity.owingAll_delivering _ _)
      (hhnd.unclaimed rfl) (fun row hmem => ?_) (fun id ids hmem => ?_) fun id hid => ?_
    · rw [Activity.owingAll_hand] at hmem
      cases hmem
    · rcases Activity.mem_owingAll hmem with hold | ⟨row, hrow, heq, hne⟩
      · exact absurd hold not_mem_nil
      cases heq
      obtain ⟨hrem, hsen⟩ := mem_filter.mp hrow
      obtain ⟨hsto, hfin⟩ := mem_filter.mp (o.mem.mp hrem)
      obtain ⟨key, hget⟩ := mem_values.mp hsto
      have hid := hacc.rows.id key row hget
      refine ⟨fun a ha => ?_, fun hg => hov hg key row hget hfin (beq_iff_eq.mp hsen) hne⟩
      rw [hid]
      exact (hacc.rows.attachments key row hget a).mp ha
    · rw [Activity.owingAll_closing] at hid
      cases hid

theorem Kept.uses {tag uploaderId : String} {file : File}
    (hhnd : Handles guard l s.files pid { drafting := some (id, ids) })
    (hans : (perform o pid (.findAndUseAttachment a tag ⟨.message, id⟩ uploaderId) s).2 =
      .ok file) :
    Kept guard' pid (.findAndUseAttachment a tag ⟨.message, id⟩ uploaderId) l s
      (perform o pid (.findAndUseAttachment a tag ⟨.message, id⟩ uploaderId) s).1 (l.claim a id)
      { drafting := some (id, ids ++ [a]) } := by
  obtain ⟨⟨old, hget, hfre, hid, hdele⟩, hus, hst⟩ := findAndUse_eq_ok hans
  obtain ⟨hph, hids⟩ := hhnd.drafting id ids rfl
  have hunu : ¬ InUse s.files a := by
    rintro ⟨file', hget', hso⟩
    rw [hget] at hget'
    rw [← some.inj hget', hfre] at hso
    cases hso
  have hsl : (l.claim a id).owner a = some id := update_self _ _ _
  have hoth : ∀ a', a' ≠ a → (l.claim a id).owner a' = l.owner a' :=
    fun a' hne => update_of_ne hne _ _
  have hchg : Change guard' pid l (l.claim a id) s.files (s.files.insert a file) := by
    refine ⟨fun id => .stays _, fun a' => ?_, fun a' file' hget' => ?_, fun a' file' hget' => ?_⟩
    · by_cases heq : a' = a
      · subst heq
        refine .inr ⟨⟨id, hsl, hph⟩, hunu, file, ?_, by rw [hus]; rfl⟩
        rw [get_insert_self]
      · exact .inl (hoth a' heq)
    · rw [get_insert]
      split
      · rename_i heq
        rw [heq, hget] at hget'
        cases hget'
        refine ⟨file, rfl, hid, fun _ => by rw [hus]; rfl, fun _ hnot hdel => ?_⟩
        rw [hdele, hnot] at hdel
        cases hdel
      · refine ⟨file', hget', rfl, fun h => h, fun _ hnot hdel => ?_⟩
        rw [hnot] at hdel
        cases hdel
    · rw [get_insert] at hget'
      split at hget'
      · rename_i heq
        exact ⟨old, heq ▸ hget⟩
      · exact ⟨file', hget'⟩
  rw [hst]
  refine ⟨hchg, ?_, ?_, fun _ h => h, fun _ h => h.elim,
    fun id h => absurd h (not_cancelsRow (fun _ => rfl) id)⟩
  · refine hacc.frame hchg hgd ?_ rfl fun id h => h
    refine ⟨hacc.rows.id, fun key row hrow => ?_, hacc.rows.pending, hacc.rows.past⟩
    have hkn := hchg.known_row hacc.owned (hacc.rows.known hrow)
    rw [← hacc.rows.id key row hrow]
    exact hkn.attachments
  · refine ⟨fun _ hmem => absurd hmem not_mem_nil, fun id' ids' heq => ?_,
      (fun _ _ hno => by cases hno), hhnd.claimed,
      fun _ _ hmem => absurd hmem not_mem_nil, nofun⟩
    cases some.inj heq
    refine ⟨hph, fun a' => ?_⟩
    rw [mem_append, mem_singleton]
    by_cases heq : a' = a
    · subst heq
      exact iff_of_true (.inr rfl) hsl
    · rw [hoth a' heq, ← hids a']
      exact or_iff_left heq

theorem Kept.inserts {row : ScheduledMessage} (hpend : row.status = .pending)
    (hhnd : Handles guard l s.files pid { drafting := some (row.id, row.attachments) }) :
    Kept guard' pid (.insertScheduledMessage row) l s
      (perform o pid (.insertScheduledMessage row) s).1 (l.setPhase row.id .pending) {} := by
  obtain ⟨hph, hids⟩ := hhnd.drafting row.id row.attachments rfl
  have hchg : Change guard' pid l (l.setPhase row.id .pending) s.files s.files :=
    .setPhase guard' s.files (by rw [hph]; exact .inserts)
  have hoth : ∀ p, p ≠ Phase.pending → p ≠ .drafted pid → ∀ id,
      (l.setPhase row.id .pending).phase id = p ↔ l.phase id = p :=
    fun p hp hl id => phase_ne_of_setPhase hp.symm (by rw [hph]; exact hl.symm)
  refine ⟨hchg, ?_, ?_, fun id hid hfr => hid ((hoth .fresh nofun nofun id).mpr hfr),
    fun _ h => h.elim, fun id h => absurd h (not_cancelsRow (fun _ => rfl) id)⟩
  · refine hacc.frame hchg hgd ?_ rfl fun id => (hoth .delivered nofun nofun id).mp
    refine ⟨forall_insert hacc.rows.id rfl, forall_insert hacc.rows.attachments hids,
      forall_insert (fun key old hget hstat => ?_) fun _ => Ledger.setPhase_phase_self,
      forall_insert (fun key old hget hstat => ?_) fun hnot => absurd hpend hnot⟩
    · have hold := hacc.rows.pending key old hget hstat
      by_cases heq : key = row.id
      · rw [heq, Ledger.setPhase_phase_self]
      · rw [Ledger.setPhase_phase_of_ne heq, hold]
    · have hps := hacc.rows.past key old hget hstat
      rwa [Ledger.setPhase_phase_of_ne]
      rintro rfl
      rw [hph] at hps
      exact hps
  · refine .empty fun id hid => ?_
    exact hhnd.unclaimed rfl id ((hoth (.claimed pid) nofun nofun id).mp hid)

/-! ### All of them -/

/-- What the sweep must find: no row in `Sending` that it removes, and that lists attachments, may
still be delivered or have been delivered. -/
def SweepsOver (l : Ledger) (s : Store) (c : Call) : Prop :=
  ∀ cutoffMs, c = .deleteFinishedScheduledMessagesBefore cutoffMs →
    ∀ key row, s.scheduledMessages.get key = some row → row.isFinishedBefore cutoffMs = true →
      row.status = .sending → row.attachments ≠ [] → l.phase row.id = .ended

/-- **Every call can be entered in the ledger.** -/
theorem Turn.kept {answer : Reply c} (hhnd : Handles guard l s.files pid act)
    (htr : Turn act c answer act')
    (hans : (perform o pid c s).2 = answer) (hov : guard' → SweepsOver l s c) :
    ∃ l', Kept guard' pid c l s (perform o pid c s).1 l' act' := by
  cases htr with
  | fetchesDue nowMs due =>
    subst hans
    refine ⟨l, .quiet hacc hgd ?_ rfl (fun _ h => h.elim) (not_cancelsRow fun _ => rfl)⟩
    refine .of_idle rfl rfl (hhnd.unclaimed rfl) (fun row hmem => ?_)
      (fun _ _ hmem => absurd hmem not_mem_nil) nofun
    obtain ⟨⟨key, hget⟩, -⟩ := mem_due pid hmem
    exact hacc.rows.known hget
  | claims row rows => exact ⟨_, .claims hacc hgd hhnd hans⟩
  | passes row rows =>
    refine ⟨l, .quiet hacc hgd ?_ (claim_eq_false hans) (fun _ h => h.elim)
      (not_cancelsRow fun _ => rfl)⟩
    exact .of_idle rfl rfl (hhnd.unclaimed rfl)
      (fun row' hmem => hhnd.hand row' (mem_cons_of_mem _ hmem))
      (fun _ _ hmem => absurd hmem not_mem_nil) nofun
  | fetches hand row ids a file hmem hdele =>
    refine ⟨l, .quiet hacc hgd ?_ rfl (fun _ h => h.elim) (not_cancelsRow fun _ => rfl)⟩
    refine ⟨hhnd.hand, (fun _ _ hno => by cases hno), fun row' ids' heq => ?_, fun id hid => ?_,
      fun _ _ hmem => absurd hmem not_mem_nil, nofun⟩
    · cases some.inj heq
      obtain ⟨hph, hkn, hids⟩ := hhnd.delivering row ids rfl
      refine ⟨hph, hkn, fun a' ha' => ?_⟩
      rcases mem_append.mp ha' with hold | hnew
      · exact (hids a' hold).imp_right fun h hg => h (hgd hg)
      · obtain rfl := mem_singleton.mp hnew
        exact ⟨hmem, fun _ => ⟨file, fetchAttachment_eq_ok hans, hdele⟩⟩
    · obtain ⟨row', ids', hdeli, hrow'⟩ := hhnd.claimed id hid
      cases some.inj hdeli
      exact ⟨row, _, rfl, hrow'⟩
  | retargets act id newParentId retargeted => exact ⟨l, .retargets hacc hgd hhnd⟩
  | delivers hand row message hnon hids => exact ⟨_, .delivers hacc hgd hhnd hnon hids hans⟩
  | isRefused act message error =>
    obtain ⟨htak, hsm, -⟩ | ⟨-, -, hok⟩ := insertMessage_cases o pid s message
    · exact ⟨l, .quiet hacc hgd (hhnd.mono hgd) hsm (fun id h => htak h.2)
        (not_cancelsRow fun _ => rfl)⟩
    · rw [hok] at hans
      cases hans
  | closes act id hc answer => exact ⟨l, .closes hacc hgd hhnd hc⟩
  | releases act id ids answer => exact ⟨l, .releases hacc hgd hhnd⟩
  | sweeps cutoffMs removed =>
    subst hans
    exact ⟨l, .sweeps hacc hgd hhnd fun hg => hov hg cutoffMs rfl⟩
  | cancelsForChannel channel removed | cancelsForServer server removed =>
    subst hans
    exact ⟨_, .cascades hacc hgd hhnd (fun _ => rfl) (fun _ h => h.elim) rfl⟩
  | looksUp id row =>
    refine ⟨l, .quiet hacc hgd ?_ rfl (fun _ h => h.elim) (not_cancelsRow fun _ => rfl)⟩
    refine .of_idle rfl rfl (hhnd.unclaimed rfl) (fun row' hmem => ?_)
      (fun _ _ hmem => absurd hmem not_mem_nil) nofun
    obtain rfl := mem_singleton.mp hmem
    exact hacc.rows.known (Checks.okOr_eq_ok.mp hans)
  | cancels row => exact ⟨_, .cancelsPending hacc hgd hhnd hans⟩
  | isTooLate row =>
    obtain ⟨hsm, hnot⟩ := deleteIfPending_eq_false hans
    refine ⟨l, .quiet hacc hgd ?_ hsm (fun _ h => h.elim) ?_⟩
    · exact .empty (hhnd.unclaimed rfl)
    · rintro id ⟨stored, hget, hpend, hcanc⟩
      have hid : stored.id = row.id := beq_iff_eq.mp hcanc
      rw [hacc.rows.id id stored hget] at hid
      rw [hid] at hget
      exact hnot stored hget hpend
  | uses id ids a tag uploaderId file => exact ⟨_, .uses hacc hgd hhnd hans⟩
  | cannotUse id ids a tag uploaderId error =>
    rw [findAndUse_eq_error hans]
    exact ⟨_, .drops hacc hgd hhnd (fun _ h => h.elim) (not_cancelsRow fun _ => rfl)⟩
  | inserts row hpend => exact ⟨_, .inserts hacc hgd hpend hhnd⟩
  | cannotInsert row error =>
    -- the id is new, so there is no row under it
    simp only [perform] at hans
    split at hans
    · rename_i hso
      obtain ⟨stored, hget⟩ := isSome_iff_exists.mp hso
      have hbeg := hacc.rows.begun hget
      rw [(hhnd.drafting _ _ rfl).1] at hbeg
      exact hbeg.elim
    · cases hans
  | _ =>
    exact ⟨l, .quiet hacc hgd (hhnd.mono hgd) rfl (fun _ h => h.elim) (not_cancelsRow fun _ => rfl)⟩

end

theorem Handles.gaveUp {row : ScheduledMessage} (hacc : Accounts guard l s)
    (hhnd : Handles guard l s.files pid act) (hdeli : act.delivering = some (row, ids)) :
    Change guard pid l (l.setPhase row.id .ended) s.files s.files ∧
      Accounts guard (l.setPhase row.id .ended) s ∧
      (∀ id, (l.setPhase row.id .ended).phase id ≠ .claimed pid) ∧
      ∀ id p, p ≠ .ended → p ≠ .claimed pid →
        ((l.setPhase row.id .ended).phase id = p ↔ l.phase id = p) := by
  obtain ⟨hph, -, -⟩ := hhnd.delivering row ids hdeli
  have hchg : Change guard pid l (l.setPhase row.id .ended) s.files s.files :=
    .setPhase guard s.files (by rw [hph]; exact .fails)
  have hoth : ∀ id p, p ≠ Phase.ended → p ≠ .claimed pid →
      ((l.setPhase row.id .ended).phase id = p ↔ l.phase id = p) :=
    fun id p hp hl => phase_ne_of_setPhase hp.symm (by rw [hph]; exact hl.symm)
  refine ⟨hchg, ?_, fun id hid => ?_, hoth⟩
  · refine hacc.frame hchg (fun h => h) ?_ rfl fun id => (hoth id .delivered nofun nofun).mp
    exact hacc.rows.setPhase trivial (by rw [hph]; exact nofun)
  · by_cases heq : id = row.id
    · rw [heq, Ledger.setPhase_phase_self] at hid
      cases hid
    · rw [Ledger.setPhase_phase_of_ne heq] at hid
      obtain ⟨row', ids', hdeli', hrow'⟩ := hhnd.claimed id hid
      rw [hdeli] at hdeli'
      cases some.inj hdeli'
      exact heq hrow'.symm

/-- **A call may be the end of a delivery**: its row is over, and the attachments may be released. -/
theorem Kept.givesUp {act'' : Activity} (hkp : Kept guard pid c l s s' l' act')
    (hgiv : act'.GivesUp act'') : ∃ l'', Kept guard pid c l s s' l'' act'' := by
  cases hgiv with
  | keeps act => exact ⟨l', hkp⟩
  | fails hand row ids =>
    obtain ⟨hph, hkn, -⟩ := hkp.handles.delivering row ids rfl
    obtain ⟨hchg, hacc, hunc, hoth⟩ := hkp.handles.gaveUp hkp.accounts rfl
    refine ⟨l'.setPhase row.id .ended, ?_, hacc, ?_, fun id hid => ?_, fun id hid => ?_,
      fun id hid => ?_⟩
    · refine ⟨fun id => ?_, hkp.change.grows, hkp.change.kept, hkp.change.known⟩
      have hmov := hkp.change.moves id
      by_cases heq : id = row.id
      · subst heq
        rw [Ledger.setPhase_phase_self]
        rw [hph] at hmov
        exact hmov.thenEnded
      · rw [Ledger.setPhase_phase_of_ne heq]
        exact hmov
    · refine .of_idle (Activity.owing_drafting _ _ _) (Activity.owing_delivering _ _ _) hunc
        (fun row' hmem => ?_) (fun id ids' hmem => ?_) fun id hid => ?_
      · refine hchg.known_row hkp.accounts.owned (hkp.handles.hand row' ?_)
        rwa [Activity.owing_hand] at hmem
      · rcases Activity.mem_owing hmem with hold | ⟨heq, -⟩
        · exact absurd hold not_mem_nil
        cases heq
        exact ⟨fun a ha => (hkn.attachments a).mp ha, fun _ => Ledger.setPhase_phase_self⟩
      · rw [← some.inj hid]
        exact .inl Ledger.setPhase_phase_self
    · exact hkp.fresh id fun hfr => hid ((hoth id .fresh nofun nofun).mpr hfr)
    · obtain ⟨hclaim, hdeliv⟩ := hkp.delivered id hid
      exact ⟨hclaim, (hoth id .delivered nofun nofun).mpr hdeliv⟩
    · exact (hchg.moves id).ended (hkp.cancelled id hid)

end Entries

end SlogaBackend.Scheduled
