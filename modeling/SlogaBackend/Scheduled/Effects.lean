import SlogaBackend.Scheduled.Custody

/-!
# What the calls do

One lemma for each call and kind of answer: what was in the store, and what the store is then. And
what the ledger says of the rows (`RowAccounts`) after the few things that can happen to them.
-/

namespace SlogaBackend.Scheduled

open Files

/-! ## Deliveries and cancellations -/

/-- Whether a call stores the message of a row. -/
def Call.deliversRow (c : Call) (s : Store) (id : String) : Prop :=
  match c with
  | .insertMessage message => message.nonce = some id ∧ s.messages.get message.id = none
  | _ => False

/-- The rows that a cancellation or a cascade is about. -/
def Call.cancels (c : Call) (row : ScheduledMessage) : Bool :=
  match c with
  | .deleteScheduledMessageIfPending id => row.id == id
  | .deleteScheduledMessagesForChannel channel => row.inChannel channel
  | .deleteScheduledMessagesForServer server => row.inServer server
  | _ => false

/-- Whether a call cancels a row: it removes it while it is pending. -/
def Call.cancelsRow (c : Call) (s : Store) (id : String) : Prop :=
  ∃ row, s.scheduledMessages.get id = some row ∧ row.status = .pending ∧ c.cancels row = true

/-! ## What the calls do -/

section Perform

variable {o : RowOrder} {pid : Nat} {s : Store}

theorem mem_due (pid : Nat) {nowMs : Int} {row : ScheduledMessage}
    (h : row ∈ (perform o pid (.fetchDueScheduledMessages nowMs) s).2) :
    (∃ key, s.scheduledMessages.get key = some row) ∧ row.status = .pending := by
  obtain ⟨hmem, hdue⟩ := mem_filter.mp (o.mem.mp h)
  unfold ScheduledMessage.isDue at hdue
  rw [and_eq_true, beq_iff_eq] at hdue
  exact ⟨mem_values.mp hmem, hdue.1⟩

variable {id tag a uploaderId : String}

theorem claim_eq_true (h : (perform o pid (.claimScheduledMessage id) s).2 = true) :
    (∃ row, s.scheduledMessages.get id = some row ∧ row.status = .pending) ∧
      (perform o pid (.claimScheduledMessage id) s).1 = s.setStatus id .sending none := by
  simp only [perform] at h ⊢
  cases hg : s.scheduledMessages.get id with
  | none =>
    simp only [hg] at h
    cases h
  | some row =>
    simp only [hg] at h ⊢
    split at h
    · rename_i hpend
      rw [if_pos hpend]
      exact ⟨⟨row, rfl, hpend⟩, rfl⟩
    · cases h

theorem claim_eq_false (h : (perform o pid (.claimScheduledMessage id) s).2 = false) :
    (perform o pid (.claimScheduledMessage id) s).1 = s := by
  simp only [perform] at h ⊢
  cases hg : s.scheduledMessages.get id with
  | none => rfl
  | some row =>
    simp only [hg] at h ⊢
    split at h
    · cases h
    · rename_i hpend
      rw [if_neg hpend]

theorem perform_closes (o : RowOrder) (pid : Nat) (s : Store) {c : Call} (hc : Closes c id) :
    (perform o pid c s).1 = s ∨ ∃ status reason, status ≠ .pending ∧
      (perform o pid c s).1 = s.setStatus id status reason := by
  cases hc with
  | failed id reason => exact .inr ⟨.failed, some reason, nofun, rfl⟩
  | sent fate id =>
    cases fate with
    | fails => exact .inl rfl
    | succeeds | lost => exact .inr ⟨.sent, none, nofun, rfl⟩

variable {file : File}

theorem fetchAttachment_eq_ok {fileId : String}
    (h : (perform o pid (.fetchAttachment tag fileId) s).2 = .ok file) :
    s.files.get fileId = some file := by
  simp only [perform] at h
  split at h
  · rename_i hg
    split at h
    · rw [hg, ok.inj h]
    · cases h
  · cases h

theorem get_foldl_delete (ids : List String) (files : Table String File) (a : String) :
    (ids.foldl (fun files id => files.modify id fun file => { file with deleted := some true })
      files).get a = if a ∈ ids then
        (files.get a).map fun file => { file with deleted := some true } else files.get a := by
  induction ids generalizing files with
  | nil => rw [List.foldl_nil, if_neg not_mem_nil]
  | cons id ids ih =>
    rw [foldl_cons, ih, get_modify]
    by_cases ha : a = id
    · subst ha
      rw [if_pos rfl, if_pos mem_cons_self, Option.map_map]
      split
      · rfl
      · rfl
    · rw [if_neg ha]
      simp only [mem_cons, ha, false_or]

theorem get_markDeleted (ids : List String) (hg : s.files.get a = some file) :
    ∃ file', (s.markDeleted ids).1.files.get a = some file' ∧
      file'.id = file.id ∧ file'.usedFor = file.usedFor ∧ (a ∉ ids → file' = file) := by
  unfold Store.markDeleted
  split
  · rw [get_foldl_delete]
    split
    · rename_i hmem
      rw [hg]
      exact ⟨_, rfl, rfl, rfl, fun hnot => absurd hmem hnot⟩
    · exact ⟨file, hg, rfl, rfl, fun _ => rfl⟩
  · exact ⟨file, hg, rfl, rfl, fun _ => rfl⟩

theorem known_of_markDeleted {ids : List String} {file' : File}
    (hg : (s.markDeleted ids).1.files.get a = some file') : ∃ file, s.files.get a = some file := by
  unfold Store.markDeleted at hg
  split at hg
  · rw [get_foldl_delete] at hg
    split at hg
    · obtain ⟨file, hfl, -⟩ := map_eq_some_iff.mp hg
      exact ⟨file, hfl⟩
    · exact ⟨file', hg⟩
  · exact ⟨file', hg⟩

theorem markDeleted_rest (s : Store) (ids : List String) :
    (s.markDeleted ids).1.scheduledMessages = s.scheduledMessages ∧
      (s.markDeleted ids).1.messages = s.messages := by
  unfold Store.markDeleted
  split <;> exact ⟨rfl, rfl⟩

variable {usedFor : FileUsedFor}

theorem findAndUse_eq_ok
    (h : (perform o pid (.findAndUseAttachment a tag usedFor uploaderId) s).2 = .ok file) :
    (∃ old, s.files.get a = some old ∧ old.usedFor = none ∧ file.id = old.id ∧
      file.deleted = old.deleted) ∧ file.usedFor = some usedFor ∧
      (perform o pid (.findAndUseAttachment a tag usedFor uploaderId) s).1 =
        { s with files := s.files.insert a file } := by
  simp only [perform] at h ⊢
  cases hg : s.files.get a with
  | none =>
    simp only [hg] at h
    cases h
  | some old =>
    simp only [hg] at h ⊢
    split at h
    · rename_i hfr
      rw [if_pos hfr]
      cases h
      exact ⟨⟨old, rfl, hfr.2, rfl, rfl⟩, rfl, rfl⟩
    · cases h

theorem findAndUse_eq_error {error : Error}
    (h : (perform o pid (.findAndUseAttachment a tag usedFor uploaderId) s).2 = .error error) :
    (perform o pid (.findAndUseAttachment a tag usedFor uploaderId) s).1 = s := by
  simp only [perform] at h ⊢
  cases hg : s.files.get a with
  | none => rfl
  | some old =>
    simp only [hg] at h ⊢
    split at h
    · cases h
    · rename_i hfr
      rw [if_neg hfr]

theorem deleteIfPending_eq_true
    (h : (perform o pid (.deleteScheduledMessageIfPending id) s).2 = true) :
    (∃ row, s.scheduledMessages.get id = some row ∧ row.status = .pending) ∧
      (perform o pid (.deleteScheduledMessageIfPending id) s).1 =
        { s with scheduledMessages := s.scheduledMessages.erase id } := by
  simp only [perform] at h ⊢
  cases hg : s.scheduledMessages.get id with
  | none =>
    simp only [hg] at h
    cases h
  | some row =>
    simp only [hg] at h ⊢
    split at h
    · rename_i hpend
      rw [if_pos hpend]
      exact ⟨⟨row, rfl, hpend⟩, rfl⟩
    · cases h

theorem deleteIfPending_eq_false
    (h : (perform o pid (.deleteScheduledMessageIfPending id) s).2 = false) :
    (perform o pid (.deleteScheduledMessageIfPending id) s).1 = s ∧
      ∀ row, s.scheduledMessages.get id = some row → row.status ≠ .pending := by
  simp only [perform] at h ⊢
  cases hg : s.scheduledMessages.get id with
  | none => exact ⟨rfl, fun _ hrow => by cases hrow⟩
  | some row =>
    simp only [hg] at h ⊢
    split at h
    · cases h
    · rename_i hpend
      rw [if_neg hpend]
      exact ⟨rfl, fun row' hrow' => some.inj hrow' ▸ hpend⟩

theorem insertMessage_cases (o : RowOrder) (pid : Nat) (s : Store) (message : Message) :
    (s.messages.get message.id ≠ none ∧ (perform o pid (.insertMessage message) s).1 = s ∧
        ∃ error, (perform o pid (.insertMessage message) s).2 = .error error) ∨
      (s.messages.get message.id = none ∧ (perform o pid (.insertMessage message) s).1 =
          { s with messages := s.messages.insert message.id message } ∧
        (perform o pid (.insertMessage message) s).2 = .ok ()) := by
  simp only [perform]
  split
  · rename_i hsm
    refine .inl ⟨fun hno => ?_, rfl, _, rfl⟩
    rw [hno] at hsm
    cases hsm
  · exact .inr ⟨Option.not_isSome_iff_eq_none.mp ‹_›, rfl, rfl⟩

end Perform

/-! ## The rows -/

namespace RowAccounts

variable {l l' : Ledger} {s : Store} {rows rows' : Table String ScheduledMessage}

theorem mono (h : RowAccounts l rows)
    (hsub : ∀ key row, rows'.get key = some row → rows.get key = some row)
    (hown : l'.owner = l.owner)
    (hph : ∀ key row, rows'.get key = some row → l'.phase key = l.phase key) :
    RowAccounts l' rows' where
  id key row hg := h.id key row (hsub key row hg)
  attachments key row hg := by
    rw [hown]
    exact h.attachments key row (hsub key row hg)
  pending key row hg hpend := by
    rw [hph key row hg]
    exact h.pending key row (hsub key row hg) hpend
  past key row hg hps := by
    rw [hph key row hg]
    exact h.past key row (hsub key row hg) hps

variable {id key : String}

theorem setPhase (h : RowAccounts l rows) {p : Phase} (hp : p.Past)
    (hpend : l.phase id ≠ .pending) : RowAccounts (l.setPhase id p) rows where
  id := h.id
  attachments := h.attachments
  pending key row hg hstat := by
    have hph := h.pending key row hg hstat
    rwa [Ledger.setPhase_phase_of_ne]
    rintro rfl
    exact hpend hph
  past key row hg hstat := by
    by_cases heq : key = id
    · subst heq
      rwa [Ledger.setPhase_phase_self]
    · rw [Ledger.setPhase_phase_of_ne heq]
      exact h.past key row hg hstat

theorem setStatus (h : RowAccounts l s.scheduledMessages) {status : ScheduledMessageStatus}
    {reason : Option String} (hstat : status ≠ .pending) (hown : l'.owner = l.owner)
    (hps : (l'.phase id).Past) (hph : ∀ key, key ≠ id → l'.phase key = l.phase key) :
    RowAccounts l' (s.setStatus id status reason).scheduledMessages := by
  have hold : ∀ key row', (s.setStatus id status reason).scheduledMessages.get key = some row' →
      ∃ row, s.scheduledMessages.get key = some row ∧ row'.id = row.id ∧
        row'.attachments = row.attachments ∧ (key = id → row'.status = status) ∧
          (key ≠ id → row' = row) := by
    intro key row' hg
    unfold Store.setStatus at hg
    rw [get_modify] at hg
    split at hg
    · rename_i hkey
      obtain ⟨row, hrow, rfl⟩ := map_eq_some_iff.mp hg
      exact ⟨row, hrow, rfl, rfl, fun _ => rfl, fun hne => absurd hkey hne⟩
    · rename_i hkey
      exact ⟨row', hg, rfl, rfl, fun heq => absurd heq hkey, fun _ => rfl⟩
  refine ⟨fun key row' hg => ?_, fun key row' hg => ?_, fun key row' hg hpend => ?_,
    fun key row' hg hnot => ?_⟩
  · obtain ⟨row, hrow, hid, -⟩ := hold key row' hg
    rw [hid]
    exact h.id key row hrow
  · obtain ⟨row, hrow, -, hatt, -⟩ := hold key row' hg
    rw [hatt, hown]
    exact h.attachments key row hrow
  · obtain ⟨row, hrow, -, -, hsl, hoth⟩ := hold key row' hg
    by_cases hkey : key = id
    · rw [hsl hkey] at hpend
      exact absurd hpend hstat
    · rw [hph key hkey]
      exact h.pending key row hrow (hoth hkey ▸ hpend)
  · obtain ⟨row, hrow, -, -, hsl, hoth⟩ := hold key row' hg
    by_cases hkey : key = id
    · rw [hkey]
      exact hps
    · rw [hph key hkey]
      exact h.past key row hrow (hoth hkey ▸ hnot)

variable {row : ScheduledMessage}

theorem begun (h : RowAccounts l rows) (hg : rows.get key = some row) : (l.phase key).Begun := by
  by_cases hpend : row.status = .pending
  · rw [h.pending key row hg hpend]
    exact trivial
  · exact (h.past key row hg hpend).begun

theorem known (h : RowAccounts l rows) (hg : rows.get key = some row) : Known l row := by
  have hid := h.id key row hg
  exact ⟨hid ▸ h.begun hg, hid ▸ h.attachments key row hg⟩

end RowAccounts

end SlogaBackend.Scheduled
