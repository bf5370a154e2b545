import SlogaBackend.Scheduled.Entries

/-!
# Every row once, and the attachments of what was delivered

* `AtMostOnce`: the message of a row is stored at most once, and never after the row was cancelled.
  This holds of every run: a claim takes the row from everybody else, and a row whose instance has
  stopped is never claimed again.
* `AttachmentsKept`: no attachment of a stored message is marked as deleted. A failure, a cascade and
  a cancellation release the attachments of a row that nobody delivers. The retention sweep releases
  those of every old row in `Sending`, and a row stays in `Sending` when its instance stops after the
  insert, or when the mark fails. So this holds while the sweeps find no such row
  (`SweepsUndelivered`); `delivered_attachment_swept` is a run where one does.
-/

namespace SlogaBackend.Scheduled

open Files Permissions

/-! ## What is claimed of a run -/

/-- Whether a step stores the message of a row. -/
def Delivers (entry : Entry) (id : String) : Prop :=
  ∃ c, entry.1.calls entry.2 = some c ∧ c.deliversRow entry.1.store id

/-- Whether a step cancels a row. -/
def Cancels (entry : Entry) (id : String) : Prop :=
  ∃ c, entry.1.calls entry.2 = some c ∧ c.cancelsRow entry.1.store id

/-- A row is delivered at most once, and never after its cancellation. -/
def AtMostOnce (history : List Entry) : Prop :=
  ∀ before entry after id, history = before ++ entry :: after → Delivers entry id →
    ∀ earlier ∈ before, ¬ Delivers earlier id ∧ ¬ Cancels earlier id

/-- No attachment of a stored message is marked as deleted. -/
def AttachmentsKept (s : Store) : Prop :=
  ∀ message ∈ s.messages.values, ∀ a ∈ message.attachmentIds, InOrder s.files a

/-- No message that references the attachment is stored, and no instance is about to find it, to
repoint it or to store a message with it. -/
def Untouched (sys : Pipeline) (a : String) : Prop :=
  (∀ message ∈ sys.store.messages.values, a ∉ message.attachmentIds) ∧
    ∀ process ∈ sys.processes.values, process.next?.all (fun c => !c.handles a) = true

/-- A sweep that removes a row in `Sending` finds its attachments untouched. -/
def SweepsUndeliveredStep (entry : Entry) : Prop :=
  match entry.1.calls entry.2 with
  | some (.deleteFinishedScheduledMessagesBefore cutoffMs) =>
    ∀ row ∈ entry.1.store.scheduledMessages.values, row.isFinishedBefore cutoffMs = true →
      row.status = .sending → ∀ a ∈ row.attachments, Untouched entry.1 a
  | _ => True

/-- The sweeps remove no row in `Sending` that was delivered, or that is being delivered. -/
def SweepsUndelivered (history : List Entry) : Prop :=
  ∀ entry ∈ history, SweepsUndeliveredStep entry

/-- No row is scheduled yet. Files are stored under their ids, and those that stored messages
reference are in use and not deleted. -/
structure Start (s : Store) : Prop where
  rows : s.scheduledMessages = ∅
  files : ∀ key file, s.files.get key = some file → file.id = key
  messages : ∀ message ∈ s.messages.values, ∀ a ∈ message.attachmentIds,
    InUse s.files a ∧ InOrder s.files a

/-! ## The ledger of a run -/

/-- What is left to run, and what is in hand. -/
def Staged (process : Process Request Error Call Reply Unit) (act : Activity) : Prop :=
  match process.prog with
  | some prog => Stage prog act
  | none => act = {}

/-- The ledger is right about a run. -/
structure Custody (guard : Prop) (history : List Entry) (sys : Pipeline) (l : Ledger)
    (activity : Nat → Activity) : Prop where
  accounts : Accounts guard l sys.store
  handles : ∀ pid, Handles guard l sys.store.files pid (activity pid)
  staged : ∀ pid process, sys.processes.get pid = some process → Staged process (activity pid)
  idle : ∀ pid, sys.processes.get pid = none → activity pid = {}
  minted : ∀ id, l.phase id ≠ .fresh →
    ∃ process ∈ sys.processes.values, process.request.rowId? = some id
  delivered : ∀ entry ∈ history, ∀ id, Delivers entry id → l.phase id = .delivered
  cancelled : ∀ entry ∈ history, ∀ id, Cancels entry id → l.phase id = .ended

variable {guard guard' : Prop} {history : List Entry} {sys : Pipeline} {l l' : Ledger}
  {activity : Nat → Activity} {s' : Store} {pid : Nat} {act' : Activity}

theorem custody_start {s : Store} (hstar : Start s) :
    Custody guard [] (.idle s) ⟨fun _ => none, fun _ => .fresh⟩ fun _ => {} where
  accounts := by
    refine ⟨?_, ⟨?_, ?_, nofun⟩, hstar.files, nofun, nofun⟩
    · rw [show (idle s : Pipeline).store = s from rfl, hstar.rows]
      have hemp : ∀ key row, (∅ : Table String ScheduledMessage).get key ≠ some row :=
        fun _ _ => nofun
      exact ⟨fun _ _ h => absurd h (hemp _ _), fun _ _ h => absurd h (hemp _ _),
        fun _ _ h => absurd h (hemp _ _), fun _ _ h => absurd h (hemp _ _)⟩
    · intro key message hg a ha
      obtain ⟨hus, hord⟩ := hstar.messages message (mem_values_of_get hg) a ha
      exact ⟨hus, fun _ => hord⟩
    · exact fun _ _ _ _ _ _ h => by cases h
  handles pid := .empty nofun
  staged pid process hg := by cases hg
  idle _ _ := rfl
  minted id h := absurd rfl h
  delivered entry hmem := absurd hmem not_mem_nil
  cancelled entry hmem := absurd hmem not_mem_nil

variable {event : Event Request}

/-- **One step of an instance.** -/
theorem Custody.advance (hcust : Custody guard history sys l activity)
    {process : Process Request Error Call Reply Unit} (hgd : guard' → guard)
    (hchg : Change guard' pid l l' sys.store.files s'.files) (hacc : Accounts guard' l' s')
    (hhnd : Handles guard' l' s'.files pid act') (hstag : Staged process act')
    (hreq : ∀ old, sys.processes.get pid = some old → old.request = process.request)
    (hfr : ∀ id, l'.phase id ≠ .fresh → l.phase id ≠ .fresh ∨ process.request.rowId? = some id)
    (hdeliv : ∀ id, Delivers (sys, event) id → l'.phase id = .delivered)
    (hcan : ∀ id, Cancels (sys, event) id → l'.phase id = .ended) :
    Custody guard' (history ++ [(sys, event)]) ⟨s', sys.processes.insert pid process⟩ l'
      (Function.update activity pid act') where
  accounts := hacc
  handles pid' := by
    by_cases hpid : pid' = pid
    · subst hpid
      rw [update_self]
      exact hhnd
    · rw [update_of_ne hpid]
      exact (hcust.handles pid').frame hchg hpid hgd hcust.accounts.owned
  staged pid' process' hg := by
    rw [get_insert] at hg
    split at hg
    · rename_i hpid
      subst hpid
      rw [update_self, ← some.inj hg]
      exact hstag
    · rename_i hpid
      rw [update_of_ne hpid]
      exact hcust.staged pid' process' hg
  idle pid' hg := by
    rw [get_insert] at hg
    split at hg
    · cases hg
    · rename_i hpid
      rw [update_of_ne hpid]
      exact hcust.idle pid' hg
  minted id hid := by
    have hnew : process ∈ (sys.processes.insert pid process).values :=
      mem_values.mpr ⟨pid, by rw [get_insert_self]⟩
    rcases hfr id hid with hold | hmin
    · obtain ⟨found, hmem, hmin⟩ := hcust.minted id hold
      obtain ⟨pid', hg⟩ := mem_values.mp hmem
      by_cases hpid : pid' = pid
      · subst hpid
        exact ⟨process, hnew, by rw [← hreq found hg, hmin]⟩
      · refine ⟨found, mem_values.mpr ⟨pid', ?_⟩, hmin⟩
        rw [get_insert, if_neg hpid]
        exact hg
    · exact ⟨process, hnew, hmin⟩
  delivered entry hmem id hid := by
    rcases mem_append.mp hmem with hold | hnew
    · exact (hchg.moves id).delivered (hcust.delivered entry hold id hid)
    · obtain rfl := mem_singleton.mp hnew
      exact hdeliv id hid
  cancelled entry hmem id hid := by
    rcases mem_append.mp hmem with hold | hnew
    · exact (hchg.moves id).ended (hcust.cancelled entry hold id hid)
    · obtain rfl := mem_singleton.mp hnew
      exact hcan id hid

theorem Delivers.calls {entry : Entry} {id : String} (h : Delivers entry id) :
    entry.1.calls entry.2 ≠ none := by
  obtain ⟨c, hcal, -⟩ := h
  rw [hcal]
  exact nofun

theorem Cancels.calls {entry : Entry} {id : String} (h : Cancels entry id) :
    entry.1.calls entry.2 ≠ none := by
  obtain ⟨c, hcal, -⟩ := h
  rw [hcal]
  exact nofun

/-- **An untouched row in `Sending` is over.** -/
theorem Custody.sweepsOver (hcust : Custody guard history sys l activity) {c : Call}
    (hcal : sys.calls event = some c) (hst : SweepsUndeliveredStep (sys, event)) :
    SweepsOver l sys.store c := by
  rintro cutoffMs rfl key row hg hfin hsen hne
  unfold SweepsUndeliveredStep at hst
  simp only [hcal] at hst
  have hunt : ∀ a ∈ row.attachments, Untouched sys a := hst row (mem_values_of_get hg) hfin hsen
  have hid := hcust.accounts.rows.id key row hg
  have hatt := hcust.accounts.rows.attachments key row hg
  have hps := hcust.accounts.rows.past key row hg (by rw [hsen]; exact nofun)
  rw [hid]
  cases hph : l.phase key with
  | ended => rfl
  | delivered =>
    obtain ⟨a, ha⟩ := List.exists_mem_of_ne_nil _ hne
    obtain ⟨key', message, hmsg, hall⟩ := hcust.accounts.messages.delivered key hph
    exact absurd (hall a ((hatt a).mp ha)) ((hunt a ha).1 message (mem_values_of_get hmsg))
  | claimed pid =>
    -- the instance that delivers the row is about to touch one of its attachments
    obtain ⟨row', ids, hdel, hrow'⟩ := (hcust.handles pid).claimed key hph
    have hkn := ((hcust.handles pid).delivering row' ids hdel).2.1
    have hsm : ∀ a, a ∈ row'.attachments ↔ a ∈ row.attachments := fun a => by
      rw [hkn.attachments a, hatt a, hrow']
    cases hproc : sys.processes.get pid with
    | none =>
      rw [hcust.idle pid hproc] at hdel
      cases hdel
    | some process =>
      have hstag := hcust.staged pid process hproc
      obtain ⟨request, prog⟩ := process
      cases prog with
      | none =>
        rw [show activity pid = {} from hstag] at hdel
        cases hdel
      | some prog =>
        obtain ⟨a, ha⟩ := List.exists_mem_of_ne_nil _ hne
        obtain ⟨c, rest, rfl, a', ha', hhnd⟩ := Stage.handles hstag hdel
          (ne_nil_of_mem ((hsm a).mpr ha))
        have hnot := (hunt a' ((hsm a').mp ha')).2 _ (mem_values_of_get hproc)
        simp only [Process.next?, Option.all_some, hhnd] at hnot
        cases hnot
  | _ =>
    rw [hph] at hps
    exact hps.elim

section

variable {entry : Entry} (h : SweepsUndelivered (history ++ [entry]))
include h

theorem SweepsUndelivered.before : SweepsUndelivered history :=
  fun entry' hmem => h entry' (mem_append_left _ hmem)

theorem SweepsUndelivered.last : SweepsUndeliveredStep entry :=
  h entry (mem_append_right _ mem_cons_self)

end

theorem faithful_perform {o : RowOrder} {s : Store} {c : Call}
    (hfil : ∀ key file, s.files.get key = some file → file.id = key) :
    Faithful c (perform o pid c s).2 := by
  cases c with
  | fetchAttachment tag fileId =>
    cases hans : (perform o pid (.fetchAttachment tag fileId) s).2 with
    | error e => exact trivial
    | ok file => exact hfil fileId file (fetchAttachment_eq_ok hans)
  | _ => exact trivial

/-- A ledger and activities account for a run. -/
def Accounted (history : List Entry) (sys : Pipeline) : Prop :=
  ∃ l activity, Custody (SweepsUndelivered history) history sys l activity

section

variable {pid : Nat} {request : Request} {c : Call} {rest : Reply c → Program Unit}

/-- An event without effect. -/
theorem Accounted.quiet (hcal : sys.calls event = none) (h : Accounted history sys) :
    Accounted (history ++ [(sys, event)]) sys := by
  obtain ⟨l, activity, hcust⟩ := h
  refine ⟨l, activity, hcust.accounts.mono .before, fun pid => (hcust.handles pid).mono .before,
    hcust.staged, hcust.idle, hcust.minted, fun entry hmem id hid => ?_,
    fun entry hmem id hid => ?_⟩
  · refine hcust.delivered entry ((mem_append.mp hmem).resolve_right fun hnew => ?_) id hid
    obtain rfl := mem_singleton.mp hnew
    exact hid.calls hcal
  · refine hcust.cancelled entry ((mem_append.mp hmem).resolve_right fun hnew => ?_) id hid
    obtain rfl := mem_singleton.mp hnew
    exact hid.calls hcal

/-- A request starts with nothing in hand, or with a new row. -/
theorem Accounted.start (hadm : MintsFresh sys (.start pid request))
    (hfre : sys.processes.get pid = none) (h : Accounted history sys) :
    Accounted (history ++ [(sys, .start pid request)])
      ⟨sys.store, sys.processes.insert pid ⟨request, some (body request)⟩⟩ := by
  obtain ⟨l, activity, hcust⟩ := h
  have hhnd := hcust.handles pid
  rw [hcust.idle pid hfre] at hhnd
  rcases Stage.start request with hstg | ⟨id, hmin, hstg⟩
  · exact ⟨l, _, hcust.advance .before (.refl _ pid l _) (hcust.accounts.mono .before)
      (hhnd.mono .before) hstg (fun old hold => nomatch hfre.symm.trans hold) (fun _ h => .inl h)
      (fun id h => absurd rfl h.calls) fun id h => absurd rfl h.calls⟩
  · have hph : l.phase id = .fresh := by
      by_contra hne
      obtain ⟨process, hmem, hoth⟩ := hcust.minted id hne
      cases request with
      | schedule r => exact hadm process hmem (hoth.trans hmin.symm)
      | _ => cases hmin
    have hchg : Change (SweepsUndelivered (history ++ [(sys, .start pid request)])) pid l
        (l.setPhase id (.drafted pid)) sys.store.files sys.store.files :=
      .setPhase _ _ (by rw [hph]; exact .drafts)
    refine ⟨_, _, hcust.advance .before hchg ?_ ?_ hstg
      (fun old hold => nomatch hfre.symm.trans hold) (fun id' hid' => ?_)
      (fun id h => absurd rfl h.calls) fun id h => absurd rfl h.calls⟩
    · refine hcust.accounts.frame hchg .before ?_ rfl fun id' => ?_
      · refine hcust.accounts.rows.mono (fun _ _ h => h) rfl fun key row hg => ?_
        refine Ledger.setPhase_phase_of_ne fun heq => ?_
        have hbeg := hcust.accounts.rows.begun hg
        rw [heq, hph] at hbeg
        exact hbeg
      · exact (phase_ne_of_setPhase (p := .drafted pid) (q := .delivered) nofun
          (by rw [hph]; exact nofun)).mp
    · refine ⟨fun _ hmem => absurd hmem not_mem_nil, fun id' ids heq => ?_,
        (fun _ _ hno => by cases hno), fun id' hclaim => ?_,
        fun _ _ hmem => absurd hmem not_mem_nil, nofun⟩
      · cases some.inj heq
        exact ⟨Ledger.setPhase_phase_self, fun a => iff_of_false not_mem_nil
          (hcust.accounts.fresh id hph a)⟩
      · have hclaim := (phase_ne_of_setPhase (p := .drafted pid) (q := .claimed pid) nofun
          (by rw [hph]; exact nofun)).mp hclaim
        exact absurd hclaim (hhnd.unclaimed rfl id')
    · by_cases heq : id' = id
      · exact .inr (heq ▸ hmin)
      · rw [Ledger.setPhase_phase_of_ne heq] at hid'
        exact .inl hid'

/-- A call is a turn of the instance, and the ledger has an entry for it. -/
theorem Accounted.call {o : RowOrder}
    (hg : sys.processes.get pid = some ⟨request, some (.call c rest)⟩)
    (h : Accounted history sys) : Accounted (history ++ [(sys, .step pid)])
      ⟨(perform o pid c sys.store).1, sys.processes.insert pid
        ⟨request, some (rest (perform o pid c sys.store).2)⟩⟩ := by
  obtain ⟨l, activity, hcust⟩ := h
  have hcal : sys.calls (.step pid) = some c := System.calls_step hg
  have hstg : Stage (.call c rest) (activity pid) := hcust.staged pid _ hg
  obtain ⟨act', act'', htr, hgiv, hnx⟩ := hstg.next (perform o pid c sys.store).2
    (faithful_perform hcust.accounts.fileId)
  obtain ⟨l', hkp⟩ := htr.kept hcust.accounts .before (hcust.handles pid) rfl
    fun h => hcust.sweepsOver hcal h.last
  obtain ⟨l'', hkp⟩ := hkp.givesUp hgiv
  refine ⟨l'', _, hcust.advance .before hkp.change hkp.accounts hkp.handles hnx ?_
    (fun id hid => .inl (hkp.fresh id hid)) (fun id hid => ?_) fun id hid => ?_⟩
  · intro old hold
    rw [hg] at hold
    rw [← some.inj hold]
  · obtain ⟨c', hcal', hid⟩ := hid
    cases hcal.symm.trans hcal'
    exact (hkp.delivered id hid).2
  · obtain ⟨c', hcal', hid⟩ := hid
    cases hcal.symm.trans hcal'
    exact hkp.cancelled id hid

/-- An instance that stops delivers its row no more. -/
theorem Accounted.crash (hg : sys.processes.get pid = some ⟨request, some (.call c rest)⟩)
    (h : Accounted history sys) : Accounted (history ++ [(sys, .crash pid)])
      ⟨sys.store, sys.processes.insert pid ⟨request, none⟩⟩ := by
  obtain ⟨l, activity, hcust⟩ := h
  have hbef : SweepsUndelivered (history ++ [(sys, .crash pid)]) → SweepsUndelivered history :=
    .before
  have hacc := hcust.accounts.mono hbef
  have hhnd := (hcust.handles pid).mono hbef
  have hreq : ∀ old, sys.processes.get pid = some old → old.request = request :=
    fun _ hold => congrArg Process.request (some.inj (hold.symm.trans hg))
  cases hdel : (activity pid).delivering with
  | none =>
    exact ⟨l, _, hcust.advance hbef (.refl _ pid l _) hacc
      (.empty (hhnd.unclaimed hdel)) rfl hreq (fun _ h => .inl h)
      (fun id h => absurd rfl h.calls) fun id h => absurd rfl h.calls⟩
  | some delivery =>
    obtain ⟨hchg, hacc', hunc, hoth⟩ := hhnd.gaveUp hacc hdel
    refine ⟨_, _, hcust.advance hbef hchg hacc' (.empty hunc) rfl hreq
      (fun id hid => .inl fun hfr => hid ((hoth id .fresh nofun nofun).mpr hfr))
      (fun id h => absurd rfl h.calls) fun id h => absurd rfl h.calls⟩

end

/-- **The ledger of every run.** -/
theorem custody_of_run {o : RowOrder} {s : Store} (hstar : Start s)
    (hrun : Run (Pipeline.exec o) MintsFresh (.idle s) history sys) : Accounted history sys := by
  refine System.invariant_history ?_ ?_ ?_ ?_ hrun ⟨_, _, custody_start hstar⟩
  · exact fun _ _ _ _ hcal h => h.quiet hcal
  · exact fun _ _ _ _ _ hadm hfre h => h.start hadm hfre
  · exact fun _ _ _ _ _ _ _ _ hg h => h.call hg
  · exact fun _ _ _ _ _ _ _ _ hg h => h.crash hg

theorem Custody.claimed_of_delivers (hcust : Custody guard history sys l activity) {id : String}
    (hdeli : Delivers (sys, event) id) : ∃ pid, l.phase id = .claimed pid := by
  obtain ⟨c, hcal, hdeli⟩ := hdeli
  obtain ⟨pid, request, rest, rfl, hg⟩ := System.calls_eq_some hcal
  cases c with
  | insertMessage message =>
    obtain ⟨hnon, hfre⟩ := hdeli
    have hstg : Stage (.call (.insertMessage message) rest) (activity pid) := hcust.staged pid _ hg
    obtain ⟨act', act'', htr, -⟩ := hstg.next (.ok ()) trivial
    have hhnd := hcust.handles pid
    generalize activity pid = act at htr hhnd
    cases htr with
    | delivers hand row message hnon' hids =>
      rw [hnon'] at hnon
      rw [← some.inj hnon]
      exact ⟨pid, (hhnd.delivering row _ rfl).1⟩
    | closes act id hc => cases hc
  | _ => exact hdeli.elim

/-! ## The two properties -/

variable {o : RowOrder} {s : Store}

section

variable (hstar : Start s) (hrun : Run (Pipeline.exec o) MintsFresh (.idle s) history sys)
include hstar hrun

/-- **A row is delivered at most once, and never after its cancellation.** -/
theorem atMostOnce_of_run : AtMostOnce history := by
  rintro before ⟨sysb, event⟩ after id rfl hdeli earlier hmem
  obtain ⟨hbef, -⟩ := hrun.split_at
  obtain ⟨l, activity, hcust⟩ := custody_of_run hstar hbef
  obtain ⟨pid, hclaim⟩ := hcust.claimed_of_delivers hdeli
  constructor
  · intro hear
    have hph := hcust.delivered earlier hmem id hear
    rw [hclaim] at hph
    cases hph
  · intro hear
    have hph := hcust.cancelled earlier hmem id hear
    rw [hclaim] at hph
    cases hph

/-- **While the sweeps remove no delivered row in `Sending`, delivered attachments are kept.** -/
theorem attachmentsKept_of_run
    (hsweep : SweepsUndelivered history) : AttachmentsKept sys.store := by
  obtain ⟨l, activity, hcust⟩ := custody_of_run hstar hrun
  intro message hmem a ha
  obtain ⟨key, hg⟩ := mem_values.mp hmem
  exact (hcust.accounts.messages.inUse key message hg a ha).2 hsweep

end

theorem delivered_once_attachments_kept (o : RowOrder) (s : Store) (hstart : Start s)
    (history : List Entry) (sys : Pipeline)
    (hrun : Run (Pipeline.exec o) MintsFresh (.idle s) history sys) :
    AtMostOnce history ∧ (SweepsUndelivered history → AttachmentsKept sys.store) :=
  ⟨atMostOnce_of_run hstart hrun, attachmentsKept_of_run hstart hrun⟩

/-! ## Runs -/

instance (sys : Pipeline) (event : Event Request) : Decidable (MintsFresh sys event) := by
  unfold MintsFresh
  split <;> infer_instance

instance (sys : Pipeline) (a : String) : Decidable (Untouched sys a) := by
  unfold Untouched
  infer_instance

instance (entry : Entry) : Decidable (SweepsUndeliveredStep entry) := by
  unfold SweepsUndeliveredStep
  split <;> infer_instance

instance (history : List Entry) : Decidable (SweepsUndelivered history) :=
  inferInstanceAs (Decidable (∀ entry ∈ history, SweepsUndeliveredStep entry))

instance (files : Table String File) (a : String) : Decidable (InOrder files a) :=
  decidable_of_iff ((files.get a).any (·.deleted.getD false == false) = true) (by
    unfold InOrder
    simp only [Option.any_eq_true, beq_iff_eq])

instance (s : Store) : Decidable (AttachmentsKept s) :=
  inferInstanceAs (Decidable (∀ message ∈ s.messages.values, ∀ a ∈ message.attachmentIds,
    InOrder s.files a))

namespace Sample

/-- An image that its uploader has not used yet. -/
def image : File where
  id := "image"
  tag := "attachments"
  filename := "image.png"
  hash := some "hash"
  uploadedAt := some 0
  uploaderId := some "author"
  usedFor := none
  deleted := none
  reported := none
  metadata := .file
  contentType := "image/png"
  size := 1

def store : Store where
  scheduledMessages := ∅
  files := Table.ofEntries [("image", image)]
  messages := ∅

theorem start_store : Start store where
  rows := rfl
  files := forall_insert (fun _ _ h => by cases h) rfl
  messages message hmem := by cases hmem

def order : RowOrder := ⟨id, fun _ => .rfl⟩

/-- A message with the image. -/
def scheduling : ScheduleRequest where
  rowId := "row"
  user := "author"
  channel := "notes"
  server := none
  scheduledAt := 1000
  data := ⟨some "look", some ["image"], none, none⟩
  refused := none

/-- A pass whose deliveries are all in order. -/
def tick (now : Int) (markSent : Fate) : Tick where
  now := now
  circumstances id :=
    { channel := some (.savedMessages "notes" "author")
      user := some none
      isMember := false
      isProtected := false
      archived := false
      locked := false
      permissionChannel := some false
      permissions := defaultPermissionSavedMessages
      dmSendAllowed := .ok ()
      messageId := "message of " ++ id
      created := .ok () }
  markSent _ := markSent
  debug _ := "DatabaseError"

/-- A message is scheduled and delivered, and a pass sweeps more than a day later. -/
def events (markSent : Fate) : List (Event Request) :=
  [.start 0 (.schedule scheduling), .step 0, .step 0,
    .start 1 (.tick (tick 1000 markSent)), .step 1, .step 1, .step 1, .step 1, .step 1, .step 1, .step 1,
    .start 2 (.tick (tick (1001 + retentionMs) .succeeds)), .step 2, .step 2, .step 2]

end Sample

open Sample in
/-- **A delivered attachment is swept**: the mark of the delivered row fails, and the sweep a day later
takes the row for one that was never delivered. -/
theorem delivered_attachment_swept : Start store ∧
    Run (Pipeline.exec order) MintsFresh (.idle store)
      (historyOf (Pipeline.exec order) (.idle store) (events .fails))
      (execAll (Pipeline.exec order) (.idle store) (events .fails)) ∧
    ¬ AttachmentsKept (execAll (Pipeline.exec order) (.idle store) (events .fails)).store :=
  ⟨start_store, Run.of_admitsAll (by decide), by decide⟩

open Sample in
theorem delivered_once_attachments_kept_marked :
    AtMostOnce (historyOf (Pipeline.exec order) (.idle store) (events .succeeds)) ∧
      AttachmentsKept (execAll (Pipeline.exec order) (.idle store) (events .succeeds)).store :=
  have h := delivered_once_attachments_kept order store start_store _ _
    (Run.of_admitsAll (by decide))
  ⟨h.1, h.2 (by decide)⟩

end SlogaBackend.Scheduled
