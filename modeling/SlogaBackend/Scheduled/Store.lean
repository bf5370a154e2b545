import SlogaBackend.Files.Storage
import SlogaBackend.Permissions.Query

/-!
# Scheduled messages

The rows that wait for their delivery, the files their attachments are, the messages that are
delivered, and the calls to them. A call is atomic. The one that may fail without a reason in the
store is `mark_scheduled_message_sent`; it carries its fate.

A map yields its rows in an order nobody promises, so the order is a parameter (`RowOrder`).
-/

namespace SlogaBackend.Scheduled

open Files

inductive ScheduledMessageStatus where
  | pending
  | sending
  | sent
  | failed
  deriving DecidableEq

structure Masquerade where
  colour : Option String

/-- The composed payload, as far as the delivery reads it. -/
structure DataMessageSend where
  content : Option String
  attachments : Option (List String)
  embeds : Option (List String)
  masquerade : Option Masquerade

structure ScheduledMessage where
  id : String
  author : String
  channel : String
  server : Option String
  scheduledAt : Int
  data : DataMessageSend
  status : ScheduledMessageStatus
  failureReason : Option String

/-- `row.data.attachments`, nothing when there are none. -/
def ScheduledMessage.attachments (row : ScheduledMessage) : List String :=
  row.data.attachments.getD []

structure Message where
  id : String
  nonce : Option String
  channel : String
  author : String
  content : Option String
  attachments : Option (List File)

/-- The files a message references. -/
def Message.attachmentIds (message : Message) : List String :=
  (message.attachments.getD []).map File.id

structure Store where
  scheduledMessages : Table String ScheduledMessage
  files : Table String File
  messages : Table String Message

/-- The order in which a map yields its rows. -/
structure RowOrder where
  order : List ScheduledMessage → List ScheduledMessage
  perm : ∀ rows, (order rows).Perm rows

theorem RowOrder.mem {rows : List ScheduledMessage} (o : RowOrder) {row : ScheduledMessage} :
    row ∈ o.order rows ↔ row ∈ rows := (o.perm rows).mem_iff

/-! ## Calls -/

inductive Call where
  | insertScheduledMessage (row : ScheduledMessage)
  | fetchScheduledMessage (id : String)
  | fetchDueScheduledMessages (nowMs : Int)
  | claimScheduledMessage (id : String)
  | markScheduledMessageSent (fate : Fate) (id : String)
  | markScheduledMessageFailed (id reason : String)
  | deleteScheduledMessageIfPending (id : String)
  | deleteScheduledMessagesForChannel (channel : String)
  | deleteScheduledMessagesForServer (server : String)
  | deleteFinishedScheduledMessagesBefore (cutoffMs : Int)
  | findAndUseAttachment (id tag : String) (usedFor : FileUsedFor) (uploaderId : String)
  | fetchAttachment (tag fileId : String)
  | retargetAttachment (id newParentId : String)
  | markAttachmentsAsDeleted (ids : List String)
  | insertMessage (message : Message)

/-- What a call answers. -/
abbrev Reply : Call → Type
  | .insertScheduledMessage _ => Except Error Unit
  | .fetchScheduledMessage _ => Except Error ScheduledMessage
  | .fetchDueScheduledMessages _ => List ScheduledMessage
  | .claimScheduledMessage _ => Bool
  | .markScheduledMessageSent .. => Except Error Unit
  | .markScheduledMessageFailed .. => Unit
  | .deleteScheduledMessageIfPending _ => Bool
  | .deleteScheduledMessagesForChannel _ => List ScheduledMessage
  | .deleteScheduledMessagesForServer _ => List ScheduledMessage
  | .deleteFinishedScheduledMessagesBefore _ => List ScheduledMessage
  | .findAndUseAttachment .. => Except Error File
  | .fetchAttachment .. => Except Error File
  | .retargetAttachment .. => Except Error Unit
  | .markAttachmentsAsDeleted _ => Except Error Unit
  | .insertMessage _ => Except Error Unit

def ScheduledMessage.isDue (row : ScheduledMessage) (nowMs : Int) : Bool :=
  row.status == .pending && row.scheduledAt ≤ nowMs

/-- What the retention sweep removes. -/
def ScheduledMessage.isFinishedBefore (row : ScheduledMessage) (cutoffMs : Int) : Bool :=
  row.status != .pending && row.scheduledAt < cutoffMs

/-- The rows that a cascade returns: the pending ones of those it removes. -/
def ScheduledMessage.isPendingIn (row : ScheduledMessage) (removes : ScheduledMessage → Bool) :
    Bool := removes row && row.status == .pending

def ScheduledMessage.inChannel (channel : String) (row : ScheduledMessage) : Bool :=
  row.channel == channel

def ScheduledMessage.inServer (server : String) (row : ScheduledMessage) : Bool :=
  row.server == some server

/-- A file in use, repointed at a new parent. -/
def retarget (newParentId : String) (file : File) : File :=
  { file with usedFor := file.usedFor.map fun usedFor => { usedFor with id := newParentId } }

namespace Store

/-- A row with a new status, if there is one. -/
def setStatus (s : Store) (id : String) (status : ScheduledMessageStatus)
    (failureReason : Option String) : Store :=
  { s with scheduledMessages := s.scheduledMessages.modify id fun row =>
      { row with status, failureReason := failureReason <|> row.failureReason } }

/-- Remove the rows of a kind. -/
def remove (s : Store) (removes : ScheduledMessage → Bool) : Store :=
  { s with scheduledMessages := s.scheduledMessages.retain fun _ row => !removes row }

/-- Remove the rows of a kind; the pending ones are returned. -/
def cancelAll (o : RowOrder) (s : Store) (removes : ScheduledMessage → Bool) :
    Store × List ScheduledMessage :=
  (s.remove removes, o.order (s.scheduledMessages.values.filter (·.isPendingIn removes)))

/-- Mark files as deleted: all of them, or none when one is missing. -/
def markDeleted (s : Store) (ids : List String) : Store × Except Error Unit :=
  if ids.all fun id => (s.files.get id).isSome then
    ({ s with files := ids.foldl (fun files id =>
        files.modify id fun file => { file with deleted := some true }) s.files }, .ok ())
  else (s, .error .notFound)

end Store

/-- Make a call. -/
def perform (o : RowOrder) (_pid : Nat) : (c : Call) → Store → Store × Reply c
  | .insertScheduledMessage row, s =>
    -- the driver reports a row that was there and has overwritten it by then
    ({ s with scheduledMessages := s.scheduledMessages.insert row.id row },
      if (s.scheduledMessages.get row.id).isSome then
        .error (.databaseError "insert" "scheduled_messages")
      else .ok ())
  | .fetchScheduledMessage id, s => (s, Checks.okOr (s.scheduledMessages.get id) .notFound)
  | .fetchDueScheduledMessages nowMs, s =>
    (s, o.order (s.scheduledMessages.values.filter (·.isDue nowMs)))
  | .claimScheduledMessage id, s =>
    match s.scheduledMessages.get id with
    | some row => if row.status = .pending then (s.setStatus id .sending none, true) else (s, false)
    | none => (s, false)
  | .markScheduledMessageSent .succeeds id, s => (s.setStatus id .sent none, .ok ())
  | .markScheduledMessageSent .fails _, s =>
    (s, .error (.databaseError "update_one" "scheduled_messages"))
  | .markScheduledMessageSent .lost id, s =>
    (s.setStatus id .sent none, .error (.databaseError "update_one" "scheduled_messages"))
  | .markScheduledMessageFailed id reason, s => (s.setStatus id .failed (some reason), ())
  | .deleteScheduledMessageIfPending id, s =>
    match s.scheduledMessages.get id with
    | some row =>
      if row.status = .pending then
        ({ s with scheduledMessages := s.scheduledMessages.erase id }, true)
      else (s, false)
    | none => (s, false)
  | .deleteScheduledMessagesForChannel channel, s =>
    s.cancelAll o (ScheduledMessage.inChannel channel)
  | .deleteScheduledMessagesForServer server, s => s.cancelAll o (ScheduledMessage.inServer server)
  | .deleteFinishedScheduledMessagesBefore cutoffMs, s =>
    (s.remove (·.isFinishedBefore cutoffMs),
      o.order (s.scheduledMessages.values.filter (·.isFinishedBefore cutoffMs)))
  | .findAndUseAttachment id tag usedFor uploaderId, s =>
    match s.files.get id with
    | some file =>
      if file.tag = tag ∧ file.usedFor = none then
        let used := { file with uploaderId := some uploaderId, usedFor := some usedFor }
        ({ s with files := s.files.insert id used }, .ok used)
      else (s, .error .notFound)
    | none => (s, .error .notFound)
  | .fetchAttachment tag fileId, s =>
    (s, match s.files.get fileId with
      | some file => if file.tag = tag then .ok file else .error .notFound
      | none => .error .notFound)
  | .retargetAttachment id newParentId, s =>
    match s.files.get id with
    | some file => ({ s with files := s.files.insert id (retarget newParentId file) }, .ok ())
    | none => (s, .error .notFound)
  | .markAttachmentsAsDeleted ids, s => s.markDeleted ids
  | .insertMessage message, s =>
    if (s.messages.get message.id).isSome then (s, .error (.databaseError "insert" "message"))
    else ({ s with messages := s.messages.insert message.id message }, .ok ())

abbrev Program (α : Type) := Prog Error Call Reply α

end SlogaBackend.Scheduled
