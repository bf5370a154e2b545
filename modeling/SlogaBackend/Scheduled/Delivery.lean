import SlogaBackend.Scheduled.Store

/-!
# Scheduling, cancelling and delivering

The requests over the rows: `message_schedule`, `scheduled_message_delete`, the two cascades, and one
pass of the delivery task. An instance of the task is a sequence of passes, and several instances
run at the same time.

What the checks of a request read has no part in the rows and the files, so it is given with the
request: what refuses the schedule request, and the `Circumstances` of a delivery. The events that
tell the author have no effect on the store and are left out.
-/

namespace SlogaBackend.Scheduled

open Checks Files Permissions

def deliveryGraceMs : Int := 5 * 60 * 1000

def retentionMs : Int := 24 * 60 * 60 * 1000

def dmPausedReason : String :=
  "your direct messages to people who haven't written back to you are paused pending review"

def channelProtectedReason : String := "the channel is now end-to-end encrypted"

/-! ## Releasing attachments -/

/-- Mark the attachments of a row as deleted, when it has any. -/
def releaseAttachments (ids : List String) : Program Unit :=
  if ids = [] then pure ()
  else do
    let _ ← op (Call.markAttachmentsAsDeleted ids)
    pure ()

def releaseAll : List ScheduledMessage → Program Unit
  | [] => pure ()
  | row :: rows => do
    releaseAttachments row.attachments
    releaseAll rows

/-! ## Scheduling -/

structure ScheduleRequest where
  /-- the new id of the row -/
  rowId : String
  user : String
  channel : String
  server : Option String
  scheduledAt : Int
  data : DataMessageSend
  /-- what the checks before the first claim refuse the request with -/
  refused : Option Error

def ScheduleRequest.row (r : ScheduleRequest) : ScheduledMessage where
  id := r.rowId
  author := r.user
  channel := r.channel
  server := r.server
  scheduledAt := r.scheduledAt
  data := r.data
  status := .pending
  failureReason := none

/-- Claim the attachments against the id of the row; what is claimed is released when one fails. -/
def claimAttachments (r : ScheduleRequest) (claimed : List String) :
    List String → Program (List String)
  | [] => pure claimed
  | attachmentId :: rest => do
    let used ← op (Call.findAndUseAttachment attachmentId "attachments" ⟨.message, r.rowId⟩ r.user)
    match used with
    | .ok _ => claimAttachments r (claimed ++ [attachmentId]) rest
    | .error error => do
      releaseAttachments claimed
      check (.error error)

def insertRow (r : ScheduleRequest) (claimed : List String) : Program Unit := do
  let inserted ← op (Call.insertScheduledMessage r.row)
  match inserted with
  | .ok _ => pure ()
  | .error error => do
    releaseAttachments claimed
    check (.error error)

def messageSchedule (r : ScheduleRequest) : Program Unit :=
  match r.refused with
  | some error => check (.error error)
  | none => do
    let claimed ← claimAttachments r [] r.row.attachments
    insertRow r claimed

/-! ## Cancelling -/

structure CancelRequest where
  target : String
  user : String
  id : String

/-- Cancel a row that was fetched: the claim of the delivery may have come first. -/
def cancelRow (row : ScheduledMessage) : Program Unit := do
  let deleted ← op (Call.deleteScheduledMessageIfPending row.id)
  if deleted then releaseAttachments row.attachments
  else check (.error .invalidOperation)

def cancelFetched (r : CancelRequest) : Except Error ScheduledMessage → Program Unit
  | .error error => check (.error error)
  | .ok row =>
    if row.channel ≠ r.target ∨ row.author ≠ r.user then check (.error .notFound)
    else cancelRow row

def scheduledMessageDelete (r : CancelRequest) : Program Unit := do
  let fetched ← op (Call.fetchScheduledMessage r.id)
  cancelFetched r fetched

def cancelAllForChannel (channel : String) : Program Unit := do
  let rows ← op (Call.deleteScheduledMessagesForChannel channel)
  releaseAll rows

def cancelAllForServer (server : String) : Program Unit := do
  let rows ← op (Call.deleteScheduledMessagesForServer server)
  releaseAll rows

/-! ## Delivering -/

/-- Why a direct message is refused. -/
inductive DmRefusal where
  | directMessagesPaused
  | other (error : Error)

/-- What the delivery of a row reads before it touches an attachment, the id it mints, and what
`create_from_api` refuses before it stores the message. -/
structure Circumstances where
  channel : Option Channel
  /-- the flags of the author, when the account exists -/
  user : Option (Option Int)
  isMember : Bool
  isProtected : Bool
  archived : Bool
  locked : Bool
  /-- whether the channel that the permissions come from is protected, when it exists -/
  permissionChannel : Option Bool
  permissions : PermissionValue
  dmSendAllowed : Except DmRefusal Unit
  messageId : String
  created : Except Error Unit

/-- One pass of the task. -/
structure Tick where
  now : Int
  /-- by the id of the row -/
  circumstances : String → Circumstances
  /-- by the id of the row -/
  markSent : String → Fate
  /-- what `{:?}` prints of an error type -/
  debug : Error → String

def couldNotBeSent (r : Tick) (error : Error) : String :=
  "the message could not be sent (" ++ r.debug error ++ ")"

/-- The author must still be part of the conversation. -/
def checkConversation (now : Circumstances) (author : String) : Channel → Except String Unit
  | .textChannel .. | .thread .. | .forum .. =>
    refuseIf (now.isMember = false) "you are no longer a member of the server"
  | .directMessage _ recipients | .group _ _ recipients _ =>
    refuseIf (author ∉ recipients) "you are no longer part of the conversation"
  | .savedMessages _ owner => refuseIf (owner ≠ author) "you are no longer part of the conversation"

/-- Archived or locked threads reject scheduled sends exactly like live ones. -/
def checkThread (now : Circumstances) : Channel → Except String Unit
  | .thread .. =>
    refuseIf ((now.archived || now.locked) &&
      !now.permissions.hasChannelPermission .manageChannel) "the thread is archived or locked"
  | _ => .ok ()

def checkMasquerade (now : Circumstances) : Option Masquerade → Except String Unit
  | some masq => do
    refuseIf (now.permissions.hasChannelPermission .masquerade = false)
      "you no longer have permission to masquerade"
    refuseIf (masq.colour.isSome && !now.permissions.hasChannelPermission .manageRole)
      "you no longer have permission to masquerade with a colour"
  | none => .ok ()

/-- Only direct messages with a peer take part in the pause. -/
def checkPaused (r : Tick) (now : Circumstances) (author : String) : Channel → Except String Unit
  | .directMessage _ recipients =>
    if (recipients.find? (· ≠ author)).isSome then
      match now.dmSendAllowed with
      | .ok _ => .ok ()
      | .error .directMessagesPaused => .error dmPausedReason
      | .error (.other error) => .error (couldNotBeSent r error)
    else .ok ()
  | _ => .ok ()

/-- The checks of `deliver` before any attachment is handed over. -/
def checkDelivery (r : Tick) (row : ScheduledMessage) : Except String Unit := do
  let now := r.circumstances row.id
  let channel ← okOr now.channel "the channel no longer exists"
  let flags ← okOr now.user "your account no longer exists"
  refuseIf (flags.getD 0 ≠ 0) "your account is suspended or deactivated"
  checkConversation now row.author channel
  let permissionChannelProtected ← okOr now.permissionChannel "the channel no longer exists"
  refuseIf (now.permissions.hasChannelPermission .sendMessage = false)
    "you no longer have permission to send messages here"
  refuseIf (now.isProtected || permissionChannelProtected) channelProtectedReason
  checkThread now channel
  checkMasquerade now row.data.masquerade
  refuseIf (row.data.embeds.any (!·.isEmpty) && !now.permissions.hasChannelPermission .sendEmbeds)
    "you no longer have permission to send embeds"
  refuseIf (row.data.attachments.any (!·.isEmpty) &&
    !now.permissions.hasChannelPermission .uploadFiles)
    "you no longer have permission to upload files"
  checkPaused r now row.author channel

/-- An attachment as it was fetched: still claimed against the row, and not deleted. -/
def checkAttachment (row : ScheduledMessage) : Except Error File → Except String File
  | .error _ => .error "an attachment no longer exists"
  | .ok file =>
    if file.usedFor = some ⟨.message, row.id⟩ ∧ file.deleted.getD false = false then .ok file
    else .error "an attachment is no longer available"

/-- Go on when an attachment was repointed. -/
def whenRetargeted (retargeted : Except Error Unit) (next : Program (Except String (List File))) :
    Program (Except String (List File)) :=
  match retargeted with
  | .error _ => pure (.error "an attachment could not be attached")
  | .ok _ => next

/-- Repoint the attachments of a row at the message, one after the other. -/
def handOver (row : ScheduledMessage) (messageId : String) (resolved : List File) :
    List String → Program (Except String (List File))
  | [] => pure (.ok resolved)
  | attachmentId :: rest => do
    let fetched ← op (Call.fetchAttachment "attachments" attachmentId)
    match checkAttachment row fetched with
    | .error reason => pure (.error reason)
    | .ok file => do
      let retargeted ← op (Call.retargetAttachment attachmentId messageId)
      whenRetargeted retargeted (handOver row messageId (resolved ++ [retarget messageId file]) rest)

/-- The message of a row; the id of the row is its nonce. -/
def messageOf (r : Tick) (row : ScheduledMessage) (resolved : List File) : Message where
  id := (r.circumstances row.id).messageId
  nonce := some row.id
  channel := row.channel
  author := row.author
  content := row.data.content
  attachments := if resolved = [] then none else some resolved

/-- What `deliver` makes of the answer to the insert. -/
def sendResult (r : Tick) : Except Error Unit → Except String Unit
  | .error error => .error (couldNotBeSent r error)
  | .ok _ => .ok ()

def createFromApi (r : Tick) (row : ScheduledMessage) :
    Except String (List File) → Program (Except String Unit)
  | .error reason => pure (.error reason)
  | .ok resolved =>
    match (r.circumstances row.id).created with
    | .error error => pure (.error (couldNotBeSent r error))
    | .ok _ => do
      let inserted ← op (Call.insertMessage (messageOf r row resolved))
      pure (sendResult r inserted)

def deliver (r : Tick) (row : ScheduledMessage) : Program (Except String Unit) :=
  match checkDelivery r row with
  | .error reason => pure (.error reason)
  | .ok _ => do
    let resolved ← handOver row (r.circumstances row.id).messageId [] row.attachments
    createFromApi r row resolved

/-- Mark a claimed row permanently failed and release its attachments. -/
def fail (row : ScheduledMessage) (reason : String) : Program Unit := do
  let _ ← op (Call.markScheduledMessageFailed row.id reason)
  releaseAttachments row.attachments

/-- What follows a delivery: a failed mark leaves the row in `Sending`. -/
def conclude (r : Tick) (row : ScheduledMessage) : Except String Unit → Program Unit
  | .error reason => fail row reason
  | .ok _ => do
    let _ ← op (Call.markScheduledMessageSent (r.markSent row.id) row.id)
    pure ()

/-- Deliver one claimed row, or mark it permanently failed. -/
def settle (r : Tick) (row : ScheduledMessage) : Program Unit :=
  if row.scheduledAt < r.now - deliveryGraceMs then fail row "missed its delivery window"
  else do
    let delivered ← deliver r row
    conclude r row delivered

def settleDue (r : Tick) : List ScheduledMessage → Program Unit
  | [] => pure ()
  | row :: rows => do
    let claimed ← op (Call.claimScheduledMessage row.id)
    if claimed then settle r row else pure ()
    settleDue r rows

/-- Remove the finished rows a day later; those in `Sending` release their attachments. -/
def sweep (r : Tick) : Program Unit := do
  let removed ← op (Call.deleteFinishedScheduledMessagesBefore (r.now - retentionMs))
  releaseAll (removed.filter (·.status == .sending))

/-- One pass. -/
def tick (r : Tick) : Program Unit := do
  let due ← op (Call.fetchDueScheduledMessages r.now)
  settleDue r due
  sweep r

/-! ## Requests -/

inductive Request where
  | schedule (r : ScheduleRequest)
  | cancel (r : CancelRequest)
  | cancelChannel (channel : String)
  | cancelServer (server : String)
  | tick (r : Tick)

def body : Request → Program Unit
  | .schedule r => messageSchedule r
  | .cancel r => scheduledMessageDelete r
  | .cancelChannel channel => cancelAllForChannel channel
  | .cancelServer server => cancelAllForServer server
  | .tick r => Scheduled.tick r

def Request.rowId? : Request → Option String
  | .schedule r => some r.rowId
  | _ => none

/-- The pipeline: the store and whoever works on it. -/
abbrev Pipeline := System Store Request Error Call Reply Unit

abbrev Entry := Pipeline × Event Request

abbrev Pipeline.exec (o : RowOrder) : Pipeline → Event Request → Pipeline × Unit :=
  System.exec (perform o) body

/-- A new row has a new id. -/
def MintsFresh (sys : Pipeline) : Event Request → Prop
  | .start _ (.schedule r) =>
    ∀ process ∈ sys.processes.values, process.request.rowId? ≠ some r.rowId
  | _ => True

end SlogaBackend.Scheduled
