import SlogaBackend.Lib.Discipline
import SlogaBackend.Unreads.Store

/-!
# Unread rows in MongoDB

The operations of the Mongo driver that write unread rows, and `delete_channel`, which removes
them. There is no transaction. A writer writes first and looks for the channel afterwards;
`delete_channel` purges, deletes the channel and purges again.
-/

namespace SlogaBackend.Unreads

/-- Delete every unread row of a channel that no longer exists. `true` if it is gone. -/
def discardUnreadsIfChannelGone (channel : String) : Program Bool := do
  let found ← ask (.findChannel channel)
  if found.isSome then return false
  else
    ask (.purgeUnreads [channel])
    return true

def acknowledgeMessage (channel user message : String) : Program (Option ChannelUnread) := do
  let unread ← ask (.findOneAndUpdate channel user message)
  let gone ← discardUnreadsIfChannelGone channel
  return if gone then none else unread

/-- The rows that acknowledging many channels inserts. -/
def acknowledgedRows (currentTime user : String) (channels : List String) : List ChannelUnread :=
  channels.map fun channel => ⟨unreadKey channel user, some currentTime, none⟩

/-- The channels of a list that were not found. -/
def missingChannels (channels : List String) (present : List ChannelDocument) : List String :=
  channels.filter fun channel => !(present.map ChannelDocument.id).contains channel

def acknowledgeChannels (currentTime user : String) (channels : List String) : Program Unit := do
  if channels = [] then return ()
  else
    ask (.deleteUnreads channels user)
    ask (.insertMany (acknowledgedRows currentTime user channels))
    -- the same check after the write, for all of them at once
    let present ← ask (.findChannels "find" channels)
    if missingChannels channels present = [] then return ()
    else ask (.purgeUnreads (missingChannels channels present))

def addMentionToUnread (channel user : String) (messages : List String) : Program Unit := do
  ask (.updateOne channel user messages)
  let _ ← discardUnreadsIfChannelGone channel
  return ()

def addMentionToManyUnreads (channel : String) (users messages : List String) : Program Unit := do
  ask (.updateMany channel users messages)
  let _ ← discardUnreadsIfChannelGone channel
  return ()

def deleteAssociatedChannelObjects (channel : String) : Program Unit := do
  let _ ← ask (.elsewhere "delete_many" "channel_invites")
  ask (.purgeUnreads [channel])
  let _ ← ask (.elsewhere "delete_many" "thread_members")
  let _ ← ask (.elsewhere "delete_many" "webhooks")
  return ()

def deleteBulkMessages : Program Unit := do
  let withAttachments ← ask (.elsewhere "find_many" "attachments")
  if withAttachments ≠ [] then
    let _ ← ask (.elsewhere "update_many" "attachments")
    let _ ← ask (.elsewhere "delete_many" "messages")
    return ()
  else
    let _ ← ask (.elsewhere "delete_many" "messages")
    return ()

/-- The channel is taken out of its server, which has to be there. -/
def removeFromServer : Program Unit := do
  let server ← ask (.elsewhere "find_one_by_id" "servers")
  check (if server ≠ [] then .ok () else .error .notFound)
  let _ ← ask (.elsewhere "update_one" "servers")
  return ()

/-- Before the channel itself: what belongs to it. -/
def deleteBelongings (channel : String) (inServer : Bool) : Program Unit := do
  deleteAssociatedChannelObjects channel
  deleteBulkMessages
  if inServer then removeFromServer else pure ()
  let _ ← ask (.elsewhere "update_many" "attachments")
  return ()

/-- `delete_channel`. A failure of the second purge is logged and not returned. -/
def deleteChannel (channel : String) (inServer : Bool) : Program Unit := do
  deleteBelongings channel inServer
  ask (.deleteOneChannel channel)
  let _ ← (ask (.purgeUnreads [channel])).attempt
  return ()

/-- The writes of unread rows. The time of `acknowledge_channels` is the id it makes. -/
inductive UnreadWrite where
  | acknowledgeMessage (channel user message : String)
  | acknowledgeChannels (currentTime user : String) (channels : List String)
  | addMentionToUnread (channel user : String) (messages : List String)
  | addMentionToManyUnreads (channel : String) (users messages : List String)
  deriving DecidableEq

def UnreadWrite.program : UnreadWrite → Program Unit
  | .acknowledgeMessage channel user message => do
    let _ ← Unreads.acknowledgeMessage channel user message
    return ()
  | .acknowledgeChannels currentTime user channels =>
    Unreads.acknowledgeChannels currentTime user channels
  | .addMentionToUnread channel user messages => Unreads.addMentionToUnread channel user messages
  | .addMentionToManyUnreads channel users messages =>
    Unreads.addMentionToManyUnreads channel users messages

inductive UnreadRequest where
  | write (w : UnreadWrite)
  | deleteChannel (channel : String) (inServer : Bool)
  deriving DecidableEq

def UnreadRequest.program : UnreadRequest → Program Unit
  | .write w => w.program
  | .deleteChannel channel inServer => Unreads.deleteChannel channel inServer

/-! ## One call -/

theorem only_ask {P : Call → Prop} {c : Call} (h : P c) : (ask c).Only P := ⟨h, fun _ => trivial⟩

theorem perform_cases (pid : Nat) (c : Call) (s : Store) : (s.faults s.tick = none ∧
      perform pid c s = ({ (reach c s).1 with tick := s.tick + 1 }, (reach c s).2)) ∨
    (s.faults s.tick ≠ none ∧ (perform pid c s).2 = .error (errorOf c) ∧
      ((perform pid c s).1 = { s with tick := s.tick + 1 } ∨
        (perform pid c s).1 = { (reach c s).1 with tick := s.tick + 1 })) := by
  unfold perform
  cases hfaul : s.faults s.tick with
  | none => exact .inl ⟨rfl, rfl⟩
  | some fault =>
    cases fault with
    | refused => exact .inr ⟨by simp, rfl, .inl rfl⟩
    | unanswered => exact .inr ⟨by simp, rfl, .inr rfl⟩

theorem perform_ok {pid : Nat} {c : Call} {s : Store} {v : Value c}
    (h : (perform pid c s).2 = .ok v) : s.faults s.tick = none ∧ (reach c s).2 = .ok v ∧
      (perform pid c s).1 = { (reach c s).1 with tick := s.tick + 1 } := by
  rcases perform_cases pid c s with ⟨hfaul, heq⟩ | ⟨-, herr, -⟩
  · rw [heq] at h ⊢
    exact ⟨hfaul, h, rfl⟩
  · rw [h] at herr
    cases herr

theorem perform_store (pid : Nat) (c : Call) (s : Store) :
    (perform pid c s).1 = { s with tick := s.tick + 1 } ∨
      (perform pid c s).1 = { (reach c s).1 with tick := s.tick + 1 } := by
  rcases perform_cases pid c s with ⟨-, heq⟩ | ⟨-, -, heq | heq⟩
  · exact .inr (by rw [heq])
  · exact .inl heq
  · exact .inr heq

theorem perform_fst {P : Store → Prop} (pid : Nat) (c : Call) (s : Store)
    (hkp : P { s with tick := s.tick + 1 })
    (hrch : P { (reach c s).1 with tick := s.tick + 1 }) : P (perform pid c s).1 := by
  rcases perform_store pid c s with heq | heq
  · rw [heq]
    exact hkp
  · rw [heq]
    exact hrch

theorem reach_faults (c : Call) (s : Store) : (reach c s).1.faults = s.faults := by
  cases c <;> simp only [reach] <;> split <;> rfl

end SlogaBackend.Unreads
