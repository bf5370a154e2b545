import SlogaBackend.Unreads.Mongo

/-!
# From an ack to the row

An ack writes the pointer into Redis and publishes an event.  crond takes the pointer out of
Redis with `GETDEL` and commits it to the row, once for each event and once more in a sweep for
the pointers whose event was lost. Where the commit fails the pointer is put back, unless
another one waits there by then.

Left out are the websocket event after each pair of `ack_server`, log lines, the pause before a
failed delivery is handed back, and deliveries that cannot be decoded, which are rejected
unread.
-/

namespace SlogaBackend.Unreads

/-! ## Recording -/

/-- Record a pointer and tell crond to commit it. -/
def recordAndPublish (user channel message : String) (server : Option String) : Program Unit := do
  ask (.set user channel message)
  ask (.processAck ⟨user, some channel, server⟩)

def ackChannel (user channel message : String) : Program Unit :=
  recordAndPublish user channel message none

/-- The channels a user can view, of those fetched, each at its newest message; and the ids of
all that can be viewed, for these may be parents. -/
def topLevelAckTargets :
    List ChannelDocument → List String → Program (List (String × String) × List String)
  | [], visibleParents => return ([], visibleParents)
  | channel :: channels, visibleParents =>
    match channel.kind with
    | .topLevel => do
      -- a permission that cannot be calculated is not granted
      let permission ← (ask (.elsewhere "find_one" "server_members")).attempt
      match permission with
      | .ok (_ :: _) =>
        if visibleParents.contains channel.id then topLevelAckTargets channels visibleParents
        else
          let (targets, parents) ← topLevelAckTargets channels (channel.id :: visibleParents)
          match channel.lastMessageId with
          | some lastMessageId => return ((channel.id, lastMessageId) :: targets, parents)
          | none => return (targets, parents)
      | _ => topLevelAckTargets channels visibleParents
    | _ => topLevelAckTargets channels visibleParents

/-- Whether a thread with that newest message still shows as unread. A row that points past
the message does not. -/
def threadIsUnread (row : Option ChannelUnread) (lastMessageId : String) : Bool :=
  match row with
  | none => true
  | some row =>
    match row.lastId with
    | none => true
    | some lastId =>
      if lastId < lastMessageId then true
      else if lastId = lastMessageId then
        row.mentions.any fun mentions => mentions.any fun mention => mention ≤ lastMessageId
      else false

def fetchJoinedThreadIds (server : String) : Program (List String) := do
  let threads ← ask (.elsewhere "find" "thread_members")
  if threads = [] then return []
  else
    let channels ← ask (.findChannels "find" threads)
    return (channels.filter fun channel =>
      match channel.kind with
      | .thread threadServer _ => threadServer == server
      | _ => false).map ChannelDocument.id

/-- The threads of visible parents that were fetched and still show as unread. -/
def unreadThreads (server : String) (visibleParents : List String) (rows : List ChannelUnread)
    (channels : List ChannelDocument) : List (String × String) :=
  channels.filterMap fun channel =>
    match channel.kind, channel.lastMessageId with
    | .thread threadServer parentChannel, some lastMessageId =>
      if threadServer = server ∧ visibleParents.contains parentChannel ∧
          threadIsUnread (rows.find? fun row => row.id.channel = channel.id) lastMessageId then
        some (channel.id, lastMessageId)
      else none
    | _, _ => none

def threadAckTargets (user server : String) (visibleParents : List String) :
    Program (List (String × String)) := do
  if visibleParents = [] then return []
  else
    let threads ← ask (.fetchThreadIdsByParents visibleParents)
    if threads = [] then return []
    else
      let joined ← fetchJoinedThreadIds server
      let unreads ← ask (.fetchUnreads user)
      let rows := unreads.filter fun row => threads.contains row.id.channel
      let candidates := (joined.filter threads.contains ++ rows.map fun row => row.id.channel).dedup
      if candidates = [] then return []
      else
        let channels ← ask (.findChannels "fetch" (candidates.insertionSort (· ≤ ·)))
        return (unreadThreads server visibleParents rows channels).insertionSort
          fun a b => a.1 ≤ b.1

/-- What marking a server as read acks. The threads are best effort. -/
def serverAckTargets (user server : String) (channels : List String) :
    Program (List (String × String)) := do
  let documents ← ask (.findChannels "fetch" channels)
  let (targets, visibleParents) ← topLevelAckTargets documents []
  let threads ← (threadAckTargets user server visibleParents).attempt
  match threads with
  | .ok threadTargets => return targets ++ threadTargets
  | .error _ => return targets

def recordAll (user server : String) : List (String × String) → Program Unit
  | [] => return ()
  | (channel, message) :: targets => do
    recordAndPublish user channel message (some server)
    recordAll user server targets

def ackServer (user server : String) (channels : List String) : Program Unit := do
  let targets ← serverAckTargets user server channels
  recordAll user server targets

/-! ## Committing -/

/-- How many mentions a row has. -/
def mentionCount (row : ChannelUnread) : Nat := (row.mentions.getD []).length

def commitAck (user channel message : String) : Program Unit := do
  let unread ← ask (.fetchUnread user channel)
  let updated ← acknowledgeMessage channel user message
  match unread, updated with
  | some before, some after =>
    if mentionCount after < mentionCount before then
      let _ ← (ask (.elsewhere "basic_publish" "ack_notification_message")).attempt
      return ()
    else return ()
  | _, _ => return ()

/-- Move the pointer of a user in a channel from Redis into the database. -/
def processChannelAck (user channel : String) : Program Unit := do
  let message ← ask (.getDel user channel)
  match message with
  | none => return ()
  | some message =>
    let committed ← (commitAck user channel message).attempt
    match committed with
    | .ok _ => return ()
    | .error e =>
      -- put back unless a newer ack has arrived in the meantime
      let _ ← (ask (.setNx user channel message)).attempt
      check (.error e)

/-- Commit one ack event and settle its delivery: a failure is handed back once. -/
def handleDelivery (payload : AckEventPayload) (redelivered : Bool) : Program Unit :=
  match payload.channelId with
  | none => do
    let _ ← (ask (.settle payload false)).attempt
    return ()
  | some channel => do
    let processed ← (processChannelAck payload.userId channel).attempt
    match processed with
    | .ok _ =>
      let _ ← (ask (.settle payload false)).attempt
      return ()
    | .error _ =>
      let _ ← (ask (.settle payload !redelivered)).attempt
      return ()

def sweepKeys : List (String × String) → Program Unit
  | [] => return ()
  | (user, channel) :: keys => do
    let _ ← (processChannelAck user channel).attempt
    sweepKeys keys

/-- One round of `sweep_task`. -/
def sweep : Program Unit := do
  let keys ← ask .scan
  sweepKeys keys

inductive AckRequest where
  | ackChannel (user channel message : String)
  | ackServer (user server : String) (channels : List String)
  | delivery (payload : AckEventPayload) (redelivered : Bool)
  | sweep

def AckRequest.program : AckRequest → Program Unit
  | .ackChannel user channel message => Unreads.ackChannel user channel message
  | .ackServer user server channels => Unreads.ackServer user server channels
  | .delivery payload redelivered => handleDelivery payload redelivered
  | .sweep => Unreads.sweep

end SlogaBackend.Unreads
