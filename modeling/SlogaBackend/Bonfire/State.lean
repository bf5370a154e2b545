import Mathlib.Data.List.Sort
import Mathlib.Data.String.Basic
import SlogaBackend.Lib.ChangeQueue

/-!
# The subscriptions of a connection

What a socket listens to: the topics in `subscribed`, and the changes that the listener has not
made yet. The topics of member events are kept in line with the servers in the cache when the
changes are applied.

Of the cache, the subscriptions only read whether the user is a bot and which servers there are
(`FollowsServers`).
-/

namespace SlogaBackend.Bonfire

/-! ## Active servers -/

/-- Servers the client asked to follow member events for, most recent last. -/
structure ActiveServers where
  capacity : Nat
  ttl : Nat
  entries : List (String × Nat)

namespace ActiveServers

/-- How many servers a connection may follow member events for at once. -/
def activeServersCapacity : Nat := 5

/-- How long a `Subscribe` keeps a server's member events flowing, in nanoseconds. -/
def activeServersTtl : Nat := 900 * 1000000000

def new (capacity ttl : Nat) : ActiveServers := ⟨capacity, ttl, []⟩

def contains (active : ActiveServers) (id : String) : Bool :=
  active.entries.any fun entry => entry.1 = id

/-- Insert or refresh `id`; returns the key evicted to make room, if any. -/
def touch (active : ActiveServers) (id : String) (now : Nat) : ActiveServers × Option String :=
  if active.contains id then
    let entries := active.entries.eraseP (fun entry => entry.1 = id) ++ [(id, now)]
    ({ active with entries }, none)
  else
    let entries := active.entries ++ [(id, now)]
    if entries.length > active.capacity then
      ({ active with entries := entries.tail }, entries.head?.map Prod.fst)
    else ({ active with entries }, none)

/-- Drop expired entries and return the rest, without refreshing them. -/
def liveKeys (active : ActiveServers) (now : Nat) : ActiveServers × List String :=
  let entries := active.entries.filter fun entry => now - entry.2 < active.ttl
  ({ active with entries }, entries.map Prod.fst)

end ActiveServers

/-- Topic carrying a server's member events. -/
def memberTopic (serverId : String) : String := serverId ++ "u"

def sessionTopic (sessionId : String) : String := "session:" ++ sessionId

/-- The server of a member topic, if that is what it is: `strip_suffix('u')`. -/
def serverOfTopic (topic : String) : Option String :=
  if topic.toList.getLast? = some 'u' then some (String.ofList topic.toList.dropLast) else none

inductive SubscriptionStateChange where
  | none
  /-- Clear all subscriptions. -/
  | reset
  /-- Append or remove subscriptions. -/
  | change (queue : ChangeQueue String)

/-- A cache, as far as the subscriptions read it. -/
class FollowsServers (κ : Type) where
  isBot : κ → Bool
  servers : κ → Finset String

open FollowsServers

structure State (κ : Type) where
  cache : κ
  sessionId : String
  privateTopic : String
  state : SubscriptionStateChange
  subscribed : Finset String
  activeServers : ActiveServers
  /-- Member topics this state subscribed and owns. -/
  memberTopics : Finset String
  /-- Member topics to drop on the next `apply_state`. -/
  memberTopicRemovals : Finset String

/-- The order in which a `HashSet` is iterated, which is any. -/
structure Iteration where
  list : Finset String → List String
  nodup (s : Finset String) : (list s).Nodup
  mem_list (s : Finset String) (topic : String) : topic ∈ list s ↔ topic ∈ s

theorem insertionSort_eq_of_perm {l l' : List String} (hpr : l.Perm l') :
    l.insertionSort (· ≤ ·) = l'.insertionSort (· ≤ ·) := by
  refine List.Perm.eq_of_pairwise' (r := (· ≤ ·)) (List.pairwise_insertionSort _ l)
    (List.pairwise_insertionSort _ l') ?_
  exact (List.perm_insertionSort _ l).trans (hpr.trans (List.perm_insertionSort _ l').symm)

/-- The alphabetical order. -/
def Iteration.sorted : Iteration where
  list s := Quot.liftOn s.val (List.insertionSort (· ≤ ·)) fun _ _ => insertionSort_eq_of_perm
  nodup s := by
    obtain ⟨⟨l⟩, hnodup⟩ := s
    exact (List.perm_insertionSort _ l).nodup_iff.mpr hnodup
  mem_list s topic := by
    obtain ⟨⟨l⟩, hnodup⟩ := s
    exact (List.perm_insertionSort _ l).mem_iff

namespace State

variable {κ : Type}

/-- `State::from`; the cache is that of the user. -/
def from_ (cache : κ) (userId : String) (privileged : Bool) (sessionId : String) : State κ where
  cache
  sessionId
  privateTopic := userId ++ "!"
  state := .reset
  subscribed :=
    {userId ++ "!", userId} ∪ (if sessionId = "" then ∅ else {sessionTopic sessionId}) ∪
      if privileged then {"global"} else ∅
  activeServers := .new ActiveServers.activeServersCapacity ActiveServers.activeServersTtl
  memberTopics := ∅
  memberTopicRemovals := ∅

def subscribeTopic (s : State κ) (topic : String) : State κ :=
  let state : SubscriptionStateChange :=
    match s.state with
    -- the listener re-subscribes everything in `subscribed`
    | .reset => .reset
    | .change queue => .change (queue.cancelOrAdd s.subscribed topic)
    | .none => if topic ∉ s.subscribed then .change ⟨[topic], []⟩ else .none
  { s with state, subscribed := insert topic s.subscribed }

/-- Unsubscribe a member topic, in any subscription state. -/
def unsubscribeTopic (s : State κ) (topic : String) : State κ :=
  let state : SubscriptionStateChange :=
    match s.state with
    | .reset => .reset
    | .change queue => .change (queue.cancelOrRemove s.subscribed topic)
    | .none => if topic ∈ s.subscribed then .change ⟨[], [topic]⟩ else .none
  { s with state, subscribed := s.subscribed.erase topic }

/-- Stop following a server's member events. -/
def removeMemberTopic (s : State κ) (serverId : String) : State κ :=
  { s with
    memberTopics := s.memberTopics.erase (memberTopic serverId)
    memberTopicRemovals := insert (memberTopic serverId) s.memberTopicRemovals }

def resetState (s : State κ) : State κ :=
  { s with
    state := .reset
    subscribed := if s.sessionId = "" then ∅ else {sessionTopic s.sessionId}
    memberTopics := ∅
    memberTopicRemovals := ∅ }

/-- Add a new subscription. -/
def insertSubscription (s : State κ) (subscription : String) : State κ :=
  if subscription ∈ s.subscribed then s
  else
    let state : SubscriptionStateChange :=
      match s.state with
      | .none => .change ⟨[subscription], []⟩
      | .change queue => .change (queue.pushAdd subscription)
      | .reset => .reset
    { s with state, subscribed := insert subscription s.subscribed }

/-- Remove existing subscription; nothing is a panic, during a reset. -/
def removeSubscription (s : State κ) (subscription : String) : Option (State κ) :=
  if subscription ∉ s.subscribed then some s
  else
    match s.state with
    | .none =>
      some { s with
        state := .change ⟨[], [subscription]⟩
        subscribed := s.subscribed.erase subscription }
    | .change queue =>
      some { s with
        state := .change (queue.pushRemove subscription)
        subscribed := s.subscribed.erase subscription }
    | .reset => none

variable [FollowsServers κ]

/-! ## Bringing the member topics in line -/

/-- The topics of the servers that were left. -/
def dropRemovals (iteration : Iteration) (s : State κ) : State κ :=
  (iteration.list s.memberTopicRemovals).foldl unsubscribeTopic { s with memberTopicRemovals := ∅ }

/-- The servers that were asked for and are in the cache; for a bot there is no filter. -/
def requestedServers (now : Nat) (s : State κ) : State κ × Option (Finset String) :=
  if isBot s.cache then (s, none)
  else
    let (activeServers, live) := s.activeServers.liveKeys now
    ({ s with activeServers }, some (live.filter (· ∈ servers s.cache)).toFinset)

/-- A tracked topic that is no longer to be followed. -/
def Unwanted (cache : κ) (requested : Option (Finset String)) (topic : String) : Prop :=
  let id := (serverOfTopic topic).getD topic
  id ∉ servers cache ∨ ∃ ids ∈ requested, id ∉ ids

instance (cache : κ) (requested : Option (Finset String)) (topic : String) :
    Decidable (Unwanted cache requested topic) :=
  match requested with
  | none => decidable_of_iff ((serverOfTopic topic).getD topic ∉ servers cache) (by simp [Unwanted])
  | some ids =>
    decidable_of_iff ((serverOfTopic topic).getD topic ∉ servers cache ∨
      (serverOfTopic topic).getD topic ∉ ids) (by simp [Unwanted])

def untrack (s : State κ) (topic : String) : State κ :=
  { s with memberTopics := s.memberTopics.erase topic }.unsubscribeTopic topic

def track (s : State κ) (topic : String) : State κ :=
  { s with memberTopics := insert topic s.memberTopics }.subscribeTopic topic

def dropUnwanted (iteration : Iteration) (requested : Option (Finset String)) (s : State κ) :
    State κ :=
  (iteration.list (s.memberTopics.filter (Unwanted s.cache requested))).foldl untrack s

/-- The topics that are to be followed and are not tracked. -/
def missing (requested : Option (Finset String)) (s : State κ) : Finset String :=
  match requested with
  | some ids => (ids.image memberTopic).filter (· ∉ s.memberTopics)
  | none =>
    -- equal counts mean nothing is missing
    if s.memberTopics.card = (servers s.cache).card then ∅
    else ((servers s.cache).image memberTopic).filter (· ∉ s.memberTopics)

def addMissing (iteration : Iteration) (requested : Option (Finset String)) (s : State κ) :
    State κ :=
  (iteration.list (missing requested s)).foldl track s

/-- Bring the subscribed member topics in line with what this connection may see. -/
def reconcileMemberTopics (iteration : Iteration) (now : Nat) (s : State κ) : State κ :=
  let (s, requested) := (s.dropRemovals iteration).requestedServers now
  (s.dropUnwanted iteration requested).addMissing iteration requested

def applyState (iteration : Iteration) (now : Nat) (s : State κ) :
    State κ × SubscriptionStateChange :=
  let s := s.reconcileMemberTopics iteration now
  let subscribed :=
    match s.state with
    | .change queue => queue.flushRecord s.subscribed
    | _ => s.subscribed
  ({ s with state := .none, subscribed }, s.state)

end State
end SlogaBackend.Bonfire
