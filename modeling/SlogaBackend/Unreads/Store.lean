import SlogaBackend.Base
import SlogaBackend.Lib.Collection
import SlogaBackend.Lib.Processes

/-!
# Where read pointers live

A read pointer is first a key in Redis, then, once crond has taken it, the `last_id` of a row
in the collection `channel_unreads`. This file has the three services with the single calls
that the code makes on them: Redis, the broker that carries the events for crond, and MongoDB.

A call may be refused, or it may take effect and its answer be lost. Either way the caller
sees an error.

The key of a row has two fields, and the second can be missing: an `update_many` that matches
nothing inserts a document from the equalities of its filter, and a `$in` over several users
is none.
-/

namespace SlogaBackend.Unreads

/-! ## Documents -/

/-- `ChannelCompositeKey`, as it is stored: a document need not have a `user`. -/
structure UnreadKey where
  channel : String
  user : Option String
  deriving DecidableEq

structure ChannelUnread where
  id : UnreadKey
  lastId : Option String
  mentions : Option (List String)
  deriving DecidableEq

def unreadKey (channel user : String) : UnreadKey := ⟨channel, some user⟩

/-- A text channel or a forum, a thread or a forum post, or another kind. -/
inductive ChannelKind where
  | topLevel
  | thread (server parentChannel : String)
  | other

structure ChannelDocument where
  id : String
  kind : ChannelKind
  lastMessageId : Option String

/-- A thread or post below one of the channels. -/
def isThreadOf (parents : List String) (document : ChannelDocument) : Bool :=
  match document.kind with
  | .thread _ parentChannel => parents.contains parentChannel
  | _ => false

abbrev UnreadRows := Collection ChannelUnread.id

/-! ## Updates -/

/-- `$pull` the mentions up to a message, `$set` the pointer. -/
def ChannelUnread.acknowledge (message : String) (row : ChannelUnread) : ChannelUnread :=
  { row with
    lastId := some message
    mentions := row.mentions.map fun mentions => mentions.filter fun mention => !mention ≤ message }

def ChannelUnread.pushMentions (messages : List String) (row : ChannelUnread) : ChannelUnread :=
  { row with mentions := some (row.mentions.getD [] ++ messages) }

theorem ChannelUnread.acknowledge_id (message : String) (row : ChannelUnread) :
    (row.acknowledge message).id = row.id := rfl

theorem ChannelUnread.pushMentions_id (messages : List String) (row : ChannelUnread) :
    (row.pushMentions messages).id = row.id := rfl

/-- The document an upsert starts from. -/
def ChannelUnread.ofKey (id : UnreadKey) : ChannelUnread := ⟨id, none, none⟩

/-- An update of the row at a key, which is inserted where there is none. -/
def upsert (rows : UnreadRows) (id : UnreadKey) (update : ChannelUnread → ChannelUnread) :
    UnreadRows :=
  rows.put (update ((rows.findOne id).getD (.ofKey id)))

section Upsert

variable (rows : UnreadRows) {id key : UnreadKey} {update : ChannelUnread → ChannelUnread}
  (hid : ∀ row, (update row).id = row.id)
include hid

theorem findOne_upsert (key : UnreadKey) : (upsert rows id update).findOne key =
      if key = id then some (update ((rows.findOne id).getD (.ofKey id)))
      else rows.findOne key := by
  have hkey : (update ((rows.findOne id).getD (.ofKey id))).id = id := by
    rw [hid]
    cases hrow : rows.findOne id with
    | none => rfl
    | some row => exact key_of_findOne hrow
  unfold upsert
  rw [Collection.findOne_put, hkey]

theorem findOne_upsert_self :
    (upsert rows id update).findOne id = some (update ((rows.findOne id).getD (.ofKey id))) := by
  rw [findOne_upsert rows hid, if_pos rfl]

theorem findOne_upsert_of_ne (hne : key ≠ id) :
    (upsert rows id update).findOne key = rows.findOne key := by
  rw [findOne_upsert rows hid, if_neg hne]

end Upsert

/-- The rows a filter on the channel and a set of users matches. -/
def matchesUsers (channel : String) (users : List String) (row : ChannelUnread) : Bool :=
  row.id.channel == channel && row.id.user.any users.contains

/-- The key an upsert takes from the filter: a `$in` over one user is an equality. -/
def upsertKey (channel : String) (users : List String) : UnreadKey :=
  match users.dedup with
  | [user] => ⟨channel, some user⟩
  | _ => ⟨channel, none⟩

/-- `update_many` with `upsert`; `none` where the inserted key is taken. -/
def updateManyMentions (rows : UnreadRows) (channel : String) (users messages : List String) :
    Option UnreadRows :=
  if rows.rows.values.any (matchesUsers channel users) then
    some (rows.updateMany (matchesUsers channel users) (ChannelUnread.pushMentions messages)
      (ChannelUnread.pushMentions_id messages))
  else rows.insertOne ((ChannelUnread.ofKey (upsertKey channel users)).pushMentions messages)

def deleteWhere (rows : UnreadRows) (p : ChannelUnread → Bool) : UnreadRows :=
  ⟨rows.rows.retain fun _ row => !p row, fun k v h =>
    rows.keyed k v (get_retain_eq_some.mp h).1⟩

theorem findOne_deleteWhere (rows : UnreadRows) (p : ChannelUnread → Bool) (key : UnreadKey) :
    (deleteWhere rows p).findOne key = (rows.findOne key).filter fun row => !p row :=
  get_retain _ _ _

/-- `insert_many`, in order, up to the first key that is taken. -/
def insertMany (rows : UnreadRows) : List ChannelUnread → UnreadRows × Bool
  | [] => (rows, true)
  | row :: rest =>
    match rows.insertOne row with
    | some rows' => insertMany rows' rest
    | none => (rows, false)

/-! ## The services -/

/-- The event that tells crond to look for a pointer. -/
structure AckEventPayload where
  userId : String
  channelId : Option String
  serverId : Option String
  deriving DecidableEq

/-- A call that is refused, or one whose answer is lost. -/
inductive Fault where
  | refused
  | unanswered

structure Store where
  /-- Redis: the pointer of a user in a channel that waits to be committed. -/
  pending : Table (String × String) String
  /-- The broker: events that no consumer has settled. -/
  events : List AckEventPayload
  channels : Collection ChannelDocument.id
  unreads : UnreadRows
  /-- Which of the calls fail, by their number. -/
  faults : Nat → Option Fault
  /-- What a call on a collection that is not modelled finds, by its number. -/
  others : Nat → List String
  tick : Nat

/-- The pointer of a user in a channel that is committed. -/
def Store.lastId (s : Store) (user channel : String) : Option String :=
  (s.unreads.findOne (unreadKey channel user)).bind ChannelUnread.lastId

inductive Call where
  | set (user channel message : String)
  | getDel (user channel : String)
  | setNx (user channel message : String)
  | scan
  | processAck (payload : AckEventPayload)
  | settle (payload : AckEventPayload) (requeue : Bool)
  | fetchUnread (user channel : String)
  | fetchUnreads (user : String)
  | findOneAndUpdate (channel user message : String)
  | updateOne (channel user : String) (messages : List String)
  | updateMany (channel : String) (users messages : List String)
  | deleteUnreads (channels : List String) (user : String)
  | insertMany (rows : List ChannelUnread)
  | purgeUnreads (channels : List String)
  | findChannel (id : String)
  | findChannels (operation : String) (ids : List String)
  | fetchThreadIdsByParents (parents : List String)
  | deleteOneChannel (id : String)
  /-- A call on a collection that is not modelled. -/
  | elsewhere (operation collection : String)
  deriving DecidableEq

abbrev Value : Call → Type
  | .getDel _ _ => Option String
  | .setNx _ _ _ => Bool
  | .scan => List (String × String)
  | .fetchUnread _ _ => Option ChannelUnread
  | .fetchUnreads _ => List ChannelUnread
  | .findOneAndUpdate _ _ _ => Option ChannelUnread
  | .findChannel _ => Option ChannelDocument
  | .findChannels _ _ => List ChannelDocument
  | .fetchThreadIdsByParents _ => List String
  | .elsewhere _ _ => List String
  | _ => Unit

abbrev Answer (c : Call) : Type := Result (Value c)

/-- What a failed call answers. -/
def errorOf : Call → Error
  | .fetchUnread _ _ => .databaseError "find_one" "channel_unreads"
  | .fetchUnreads _ => .databaseError "find" "channel_unreads"
  | .findOneAndUpdate _ _ _ => .databaseError "update_one" "channel_unreads"
  | .updateOne _ _ _ => .databaseError "update_one" "channel_unreads"
  | .updateMany _ _ _ => .databaseError "update_many" "channel_unreads"
  | .deleteUnreads _ _ => .databaseError "delete_many" "channel_unreads"
  | .insertMany _ => .databaseError "update_many" "channel_unreads"
  | .purgeUnreads _ => .databaseError "delete_many" "channel_unreads"
  | .findChannel _ => .databaseError "find_one" "channels"
  | .findChannels operation _ => .databaseError operation "channels"
  | .fetchThreadIdsByParents _ => .databaseError "find" "channels"
  | .deleteOneChannel _ => .databaseError "delete_one_by_id" "channels"
  | .elsewhere operation collection => .databaseError operation collection
  | _ => .internalError

/-- A call that is answered. -/
def reach (c : Call) (s : Store) : Store × Answer c :=
  match c with
  | .set user channel message =>
    ({ s with pending := s.pending.insert (user, channel) message }, .ok ())
  | .getDel user channel =>
    ({ s with pending := s.pending.erase (user, channel) }, .ok (s.pending.get (user, channel)))
  | .setNx user channel message =>
    match s.pending.get (user, channel) with
    | some _ => (s, .ok false)
    | none => ({ s with pending := s.pending.insert (user, channel) message }, .ok true)
  | .scan => (s, .ok s.pending.keys)
  | .processAck payload => ({ s with events := payload :: s.events }, .ok ())
  | .settle payload requeue =>
    (if requeue then s else { s with events := s.events.erase payload }, .ok ())
  | .fetchUnread user channel => (s, .ok (s.unreads.findOne (unreadKey channel user)))
  | .fetchUnreads user =>
    (s, .ok (s.unreads.rows.values.filter fun row => row.id.user == some user))
  | .findOneAndUpdate channel user message =>
    let rows := upsert s.unreads (unreadKey channel user) (ChannelUnread.acknowledge message)
    ({ s with unreads := rows }, .ok (rows.findOne (unreadKey channel user)))
  | .updateOne channel user messages =>
    ({ s with
      unreads := upsert s.unreads (unreadKey channel user) (ChannelUnread.pushMentions messages) },
      .ok ())
  | .updateMany channel users messages =>
    match updateManyMentions s.unreads channel users messages with
    | some rows => ({ s with unreads := rows }, .ok ())
    | none => (s, .error (errorOf (.updateMany channel users messages)))
  | .deleteUnreads channels user =>
    ({ s with
      unreads := deleteWhere s.unreads fun row =>
        channels.contains row.id.channel && row.id.user == some user }, .ok ())
  | .insertMany rows =>
    let (unreads, inserted) := insertMany s.unreads rows
    ({ s with unreads := unreads },
      if inserted then .ok () else .error (errorOf (.insertMany rows)))
  | .purgeUnreads channels =>
    ({ s with unreads := deleteWhere s.unreads fun row => channels.contains row.id.channel },
      .ok ())
  | .findChannel id => (s, .ok (s.channels.findOne id))
  | .findChannels _ ids => (s, .ok (ids.dedup.filterMap s.channels.findOne))
  | .fetchThreadIdsByParents parents =>
    (s, .ok ((s.channels.rows.values.filter (isThreadOf parents)).map ChannelDocument.id))
  | .deleteOneChannel id => ({ s with channels := s.channels.deleteOne id }, .ok ())
  | .elsewhere _ _ => (s, .ok (s.others s.tick))

/-- A call, which may fail. -/
def perform (_ : Nat) (c : Call) (s : Store) : Store × Answer c :=
  match s.faults s.tick with
  | none => ({ (reach c s).1 with tick := s.tick + 1 }, (reach c s).2)
  | some .refused => ({ s with tick := s.tick + 1 }, .error (errorOf c))
  | some .unanswered => ({ (reach c s).1 with tick := s.tick + 1 }, .error (errorOf c))

abbrev Program (α : Type) := Prog Error Call Answer α

/-- Make a call; a failed call ends the program. -/
def ask (c : Call) : Program (Value c) := Prog.call c fun answer => .done answer

end SlogaBackend.Unreads
