import SlogaBackend.Scheduled.Activities

/-!
# Who has a row, and whose an attachment is

The store does not say which instance delivers a row, and when a message is delivered it no longer
says that its attachments were those of a row. `Ledger` does: the phase of every row, and the row
that every attachment was claimed for. The ledger is no part of the program.

* `Accounts`: what the ledger says of the store.
* `Handles`: what it says of an instance with something in hand.
* `Change`: what one instance may do to the ledger and the files. It keeps what the others have in
  hand (`Handles.frame`) and the messages (`Accounts.frame`).

A file that is marked as deleted belongs to a row that is over. For the retention sweep this is not
so in every run, therefore it is claimed under a guard only.
-/

namespace SlogaBackend.Scheduled

open Files

/-! ## The ledger -/

/-- The life of a row: not scheduled yet, being scheduled, waiting, with the instance that delivers
it, never to be delivered, delivered. -/
inductive Phase where
  | fresh
  | drafted (pid : Nat)
  | pending
  | claimed (pid : Nat)
  | ended
  | delivered
  deriving DecidableEq

namespace Phase

/-- What an instance may do to a phase. -/
inductive Moves (pid : Nat) : Phase → Phase → Prop where
  | stays (phase : Phase) : Moves pid phase phase
  | drafts : Moves pid fresh (drafted pid)
  | inserts : Moves pid (drafted pid) pending
  | drops : Moves pid (drafted pid) ended
  | claims : Moves pid pending (claimed pid)
  | cancels : Moves pid pending ended
  | fails : Moves pid (claimed pid) ended
  | delivers : Moves pid (claimed pid) delivered

/-- A row that was stored. -/
def Begun : Phase → Prop
  | fresh | drafted _ => False
  | _ => True

/-- A row that waits no longer. -/
def Past : Phase → Prop
  | claimed _ | ended | delivered => True
  | _ => False

variable {pid : Nat} {p q : Phase}

theorem Moves.begun (h : Moves pid p q) (hp : p.Begun) : q.Begun := by
  cases h with
  | stays => exact hp
  | drafts => exact hp.elim
  | _ => exact trivial

theorem Past.begun (h : p.Past) : p.Begun := by
  cases p with
  | fresh | drafted => exact h
  | _ => exact trivial

theorem Moves.ended (h : Moves pid p q) (hp : p = ended) : q = ended := by
  subst hp
  cases h
  rfl

theorem Moves.delivered (h : Moves pid p q) (hp : p = delivered) : q = delivered := by
  subst hp
  cases h
  rfl

theorem Moves.of_fresh (h : Moves pid p q) (hq : q = fresh) : p = fresh := by
  subst hq
  cases h
  rfl

theorem Moves.thenEnded (h : Moves pid p (claimed pid)) : Moves pid p Phase.ended := by
  cases h with
  | stays => exact .fails
  | claims => exact .cancels

variable {pid' : Nat}

theorem Moves.drafted (hne : pid' ≠ pid) (h : Moves pid p q) (hp : p = drafted pid')
    : q = drafted pid' := by
  subst hp
  cases h with
  | stays => rfl
  | _ => exact absurd rfl hne

theorem Moves.claimed_iff (hne : pid' ≠ pid) (h : Moves pid p q) :
    q = claimed pid' ↔ p = claimed pid' := by
  constructor
  · rintro rfl
    cases h with
    | stays => rfl
    | claims => exact absurd rfl hne
  · rintro rfl
    cases h with
    | stays => rfl
    | _ => exact absurd rfl hne

end Phase

structure Ledger where
  /-- the row that an attachment was claimed for -/
  owner : String → Option String
  phase : String → Phase

namespace Ledger

variable {l : Ledger} {id : String} {p : Phase}

def setPhase (l : Ledger) (id : String) (p : Phase) : Ledger :=
  { l with phase := Function.update l.phase id p }

@[simp] theorem setPhase_phase_self : (l.setPhase id p).phase id = p := update_self _ _ _

theorem setPhase_phase_of_ne {id' : String} (h : id' ≠ id) :
    (l.setPhase id p).phase id' = l.phase id' := update_of_ne h _ _

/-- The rows of a kind are over. -/
def endAll (l : Ledger) (ends : String → Bool) : Ledger :=
  { l with phase := fun id => if ends id then .ended else l.phase id }

variable {ends : String → Bool}

theorem endAll_phase (hen : ends id = true) : (l.endAll ends).phase id = .ended := if_pos hen

theorem endAll_phase_of_not (hen : ends id = false) :
    (l.endAll ends).phase id = l.phase id := if_neg (by rw [hen]; exact nofun)

def claim (l : Ledger) (attachmentId id : String) : Ledger :=
  { l with owner := Function.update l.owner attachmentId (some id) }

end Ledger

/-- A row that was stored, as the ledger has it. -/
structure Known (l : Ledger) (row : ScheduledMessage) : Prop where
  begun : (l.phase row.id).Begun
  attachments : ∀ a, a ∈ row.attachments ↔ l.owner a = some row.id

/-- An attachment that is stored and not deleted. -/
def InOrder (files : Table String File) (attachmentId : String) : Prop :=
  ∃ file, files.get attachmentId = some file ∧ file.deleted.getD false = false

def InUse (files : Table String File) (attachmentId : String) : Prop :=
  ∃ file, files.get attachmentId = some file ∧ file.usedFor.isSome

/-! ## What the ledger says -/

/-- The rows that are stored. -/
structure RowAccounts (l : Ledger) (rows : Table String ScheduledMessage) : Prop where
  id : ∀ key row, rows.get key = some row → row.id = key
  attachments : ∀ key row, rows.get key = some row → ∀ a, a ∈ row.attachments ↔ l.owner a = some key
  pending : ∀ key row, rows.get key = some row → row.status = .pending → l.phase key = .pending
  past : ∀ key row, rows.get key = some row → row.status ≠ .pending → (l.phase key).Past

structure MessageAccounts (guard : Prop) (l : Ledger) (files : Table String File)
    (messages : Table String Message) : Prop where
  inUse : ∀ key message, messages.get key = some message → ∀ a ∈ message.attachmentIds,
    InUse files a ∧ (guard → InOrder files a)
  owner : ∀ key message, messages.get key = some message → ∀ a ∈ message.attachmentIds,
    ∀ id, l.owner a = some id → l.phase id = .delivered
  delivered : ∀ id, l.phase id = .delivered →
    ∃ key message, messages.get key = some message ∧ ∀ a, l.owner a = some id →
      a ∈ message.attachmentIds

/-- What the ledger says of the store. -/
structure Accounts (guard : Prop) (l : Ledger) (s : Store) : Prop where
  rows : RowAccounts l s.scheduledMessages
  messages : MessageAccounts guard l s.files s.messages
  fileId : ∀ key file, s.files.get key = some file → file.id = key
  owned : ∀ a id, l.owner a = some id → InUse s.files a
  fresh : ∀ id, l.phase id = .fresh → ∀ a, l.owner a ≠ some id

/-- What the ledger says of an instance. -/
structure Handles (guard : Prop) (l : Ledger) (files : Table String File) (pid : Nat)
    (act : Activity) : Prop where
  hand : ∀ row ∈ act.hand, Known l row
  drafting : ∀ id ids, act.drafting = some (id, ids) →
    l.phase id = .drafted pid ∧ ∀ a, a ∈ ids ↔ l.owner a = some id
  delivering : ∀ row ids, act.delivering = some (row, ids) →
    l.phase row.id = .claimed pid ∧ Known l row ∧
      ∀ a ∈ ids, a ∈ row.attachments ∧ (guard → InOrder files a)
  claimed : ∀ id, l.phase id = .claimed pid →
    ∃ row ids, act.delivering = some (row, ids) ∧ row.id = id
  owed : ∀ id ids, (id, ids) ∈ act.owed →
    (∀ a ∈ ids, l.owner a = some id) ∧ (guard → l.phase id = .ended)
  closing : ∀ id, act.closing = some id → l.phase id = .ended ∨ l.phase id = .delivered

/-! ## What an instance may do -/

/-- What a step of an instance does to the ledger and the files. -/
structure Change (guard : Prop) (pid : Nat) (l l' : Ledger) (files files' : Table String File) :
    Prop where
  moves : ∀ id, (l.phase id).Moves pid (l'.phase id)
  grows : ∀ a, l'.owner a = l.owner a ∨
    ((∃ id, l'.owner a = some id ∧ l.phase id = .drafted pid) ∧ ¬ InUse files a ∧ InUse files' a)
  kept : ∀ a file, files.get a = some file → ∃ file', files'.get a = some file' ∧
    file'.id = file.id ∧ (file.usedFor.isSome → file'.usedFor.isSome) ∧
      (guard → file.deleted.getD false = false → file'.deleted.getD false = true →
        ∃ id, l.owner a = some id ∧ l.phase id = .ended)
  known : ∀ a file', files'.get a = some file' → ∃ file, files.get a = some file

namespace Change

variable {guard guard' : Prop} {pid : Nat} {l l' : Ledger} {files files' : Table String File}

theorem refl (guard : Prop) (pid : Nat) (l : Ledger) (files : Table String File) :
    Change guard pid l l files files where
  moves id := .stays _
  grows a := .inl rfl
  kept a file h := ⟨file, h, rfl, id, fun _ hnot hdel => by rw [hnot] at hdel; cases hdel⟩
  known a file h := ⟨file, h⟩

variable {id a : String}

theorem setPhase {p : Phase} (guard : Prop) (files : Table String File)
    (h : (l.phase id).Moves pid p) : Change guard pid l (l.setPhase id p) files files where
  moves id' := by
    by_cases heq : id' = id
    · subst heq
      rw [Ledger.setPhase_phase_self]
      exact h
    · rw [Ledger.setPhase_phase_of_ne heq]
      exact .stays _
  grows a := .inl rfl
  kept := (refl guard pid l files).kept
  known := (refl guard pid l files).known

variable (h : Change guard' pid l l' files files')

include h

theorem inUse (hus : InUse files a) : InUse files' a := by
  obtain ⟨file, hget, hus⟩ := hus
  obtain ⟨file', hget', -, hkp, -⟩ := h.kept a file hget
  exact ⟨file', hget', hkp hus⟩

theorem owner_of_some (howne : l.owner a = some id) (hus : InUse files a) :
    l'.owner a = some id := by
  rcases h.grows a with hsm | ⟨-, hunu, -⟩
  · rw [hsm, howne]
  · exact absurd hus hunu

theorem owner_iff (hne : l.phase id ≠ .drafted pid)
    (howne : ∀ a id, l.owner a = some id → InUse files a) (a : String) :
    l'.owner a = some id ↔ l.owner a = some id := by
  constructor
  · intro hso
    rcases h.grows a with hsm | ⟨⟨id', hnew, hph⟩, -, -⟩
    · rw [← hsm, hso]
    · rw [hso] at hnew
      cases hnew
      exact absurd hph hne
  · exact fun hso => h.owner_of_some hso (howne a id hso)

theorem inOrder (hord : InOrder files a) (hgd : guard')
    (hnot : ∀ id, l.owner a = some id → l.phase id ≠ .ended) : InOrder files' a := by
  obtain ⟨file, hget, hdel⟩ := hord
  obtain ⟨file', hget', -, -, hdele⟩ := h.kept a file hget
  refine ⟨file', hget', ?_⟩
  cases hdel' : file'.deleted.getD false with
  | false => rfl
  | true =>
    obtain ⟨id, hown, hov⟩ := hdele hgd hdel hdel'
    exact absurd hov (hnot id hown)

theorem known_row {row : ScheduledMessage}
    (howne : ∀ a id, l.owner a = some id → InUse files a) (hkn : Known l row) :
    Known l' row where
  begun := (h.moves row.id).begun hkn.begun
  attachments a := by
    have hne : l.phase row.id ≠ .drafted pid := by
      intro hph
      have hbeg := hkn.begun
      rw [hph] at hbeg
      exact hbeg
    rw [h.owner_iff hne howne a]
    exact hkn.attachments a

end Change

/-- **What the others do keeps what an instance has in hand.** -/
theorem Handles.frame {guard guard' : Prop} {pid pid' : Nat} {l l' : Ledger}
    {files files' : Table String File} {act : Activity} (hhnd : Handles guard l files pid' act)
    (hchg : Change guard' pid l l' files files') (hne : pid' ≠ pid) (hgd : guard' → guard)
    (howne : ∀ a id, l.owner a = some id → InUse files a) :
    Handles guard' l' files' pid' act where
  hand row hrow := hchg.known_row howne (hhnd.hand row hrow)
  drafting id ids hdraf := by
    obtain ⟨hph, hids⟩ := hhnd.drafting id ids hdraf
    refine ⟨(hchg.moves id).drafted hne hph, fun a => ?_⟩
    rw [hids a, hchg.owner_iff (fun heq => ?_) howne a]
    rw [hph] at heq
    exact hne (Phase.drafted.inj heq)
  delivering row ids hdeliv := by
    obtain ⟨hph, hkn, hids⟩ := hhnd.delivering row ids hdeliv
    refine ⟨((hchg.moves row.id).claimed_iff hne).mpr hph, hchg.known_row howne hkn, fun a ha => ?_⟩
    obtain ⟨hmem, hord⟩ := hids a ha
    refine ⟨hmem, fun hg => hchg.inOrder (hord (hgd hg)) hg fun id hown hov => ?_⟩
    rw [(hkn.attachments a).mp hmem] at hown
    cases hown
    rw [hph] at hov
    cases hov
  claimed id hclaim := hhnd.claimed id (((hchg.moves id).claimed_iff hne).mp hclaim)
  owed id ids hmem := by
    obtain ⟨hids, hov⟩ := hhnd.owed id ids hmem
    exact ⟨fun a ha => hchg.owner_of_some (hids a ha) (howne a id (hids a ha)),
      fun hg => (hchg.moves id).ended (hov (hgd hg))⟩
  closing id hclos := (hhnd.closing id hclos).imp (hchg.moves id).ended (hchg.moves id).delivered

/-- **A step that delivers nothing keeps the messages.** -/
theorem Accounts.frame {guard guard' : Prop} {pid : Nat} {l l' : Ledger} {s s' : Store}
    (hacc : Accounts guard l s) (hchg : Change guard' pid l l' s.files s'.files)
    (hgd : guard' → guard) (hrw : RowAccounts l' s'.scheduledMessages)
    (hmes : s'.messages = s.messages)
    (hdeli : ∀ id, l'.phase id = .delivered → l.phase id = .delivered) :
    Accounts guard' l' s' where
  rows := hrw
  messages := by
    have hown : ∀ a, InUse s.files a → l'.owner a = l.owner a := by
      intro a hus
      exact (hchg.grows a).elim id fun hnew => absurd hus hnew.2.1
    rw [hmes]
    refine ⟨fun key message hget a ha => ?_, fun key message hget a ha id hid => ?_,
      fun id hid => ?_⟩
    · obtain ⟨hus, hord⟩ := hacc.messages.inUse key message hget a ha
      refine ⟨hchg.inUse hus, fun hg => hchg.inOrder (hord (hgd hg)) hg ?_⟩
      intro id hid hov
      rw [hacc.messages.owner key message hget a ha id hid] at hov
      cases hov
    · rw [hown a (hacc.messages.inUse key message hget a ha).1] at hid
      exact (hchg.moves id).delivered (hacc.messages.owner key message hget a ha id hid)
    · obtain ⟨key, message, hget, hall⟩ := hacc.messages.delivered id (hdeli id hid)
      refine ⟨key, message, hget, fun a ha => hall a ((hchg.owner_iff ?_ hacc.owned a).mp ha)⟩
      rw [hdeli id hid]
      exact nofun
  fileId key file' hget := by
    obtain ⟨file, hfl⟩ := hchg.known key file' hget
    obtain ⟨file'', hget', hid, -⟩ := hchg.kept key file hfl
    rw [hget] at hget'
    rw [some.inj hget', hid]
    exact hacc.fileId key file hfl
  owned a id hown := by
    rcases hchg.grows a with hsm | ⟨-, -, hus⟩
    · rw [hsm] at hown
      exact hchg.inUse (hacc.owned a id hown)
    · exact hus
  fresh id hfr a hown := by
    have hold := (hchg.moves id).of_fresh hfr
    have hne : l.phase id ≠ .drafted pid := by
      rw [hold]
      exact nofun
    exact hacc.fresh id hold a ((hchg.owner_iff hne hacc.owned a).mp hown)

end SlogaBackend.Scheduled
