import Mathlib.Data.List.MinMax
import Mathlib.Data.Prod.Lex
import Mathlib.Order.WithBot
import SlogaBackend.Lib.Eviction
import SlogaBackend.Lib.Runs
import SlogaBackend.Pushd.Destinations

/-!
# The limiter of UnifiedPush sends

Every send is asked for. It needs a token of its destination and one of its user there, a free
slot, and a reservation on the destination's rejection budget, which the ticket it gets holds until
it is completed. Three bounded maps keep what is known of destinations, of users at destinations
and of subscriptions.

A hash map is iterated in no particular order, which may be another one at every call; each call
comes with the orders it meets.
-/

namespace SlogaBackend.Pushd

structure SubKey where
  hash : UInt64
  deriving DecidableEq

structure UserEntry where
  bucket : TokenBucket
  touched : ℕ

/-- What is kept of a subscription. -/
structure SubEntry where
  /-- The end of the cooldown, if there is one. -/
  until_ : Option Instant
  /-- The length of the latest cooldown in seconds. -/
  levelSecs : ℕ
  /-- Whether it was refused in this cooldown. -/
  denied : Bool
  /-- When a refusal was last to be logged. -/
  refusedAt : Option Instant

namespace SubEntry

def empty : SubEntry := ⟨none, 0, false, none⟩

def cooling (entry : SubEntry) (now : Instant) : Bool := entry.until_.any fun end_ => now < end_

/-- The order of time; what carries no live state comes first. -/
instance : Preorder (WithBot Instant) :=
  @WithBot.instPreorder Instant (Lattice.toSemilatticeInf (α := ℤ)).toPreorder

/-- When it stops carrying live state. -/
def end_ (entry : SubEntry) : WithBot Instant :=
  let refusal : WithBot Instant := entry.refusedAt.map (· + refusalLogInterval)
  let until_ : WithBot Instant := entry.until_
  max until_ refusal

def deny (entry : SubEntry) : Bool × SubEntry := (!entry.denied, { entry with denied := true })

/-- The length of the cooldown that a rejection starts. -/
def nextLevel (entry : SubEntry) (prunes : Bool) (limits : UpLimits) : ℕ :=
  let level :=
    if prunes then limits.subCooldownMaxSecs
    else if entry.levelSecs = 0 then limits.subCooldownBaseSecs
    else saturatingMulU64 entry.levelSecs 2
  min level limits.subCooldownMaxSecs

/-- Start or extend the cooldown after a rejection. One that lands in a cooldown does not, unless
it removes the subscription. -/
def cool (entry : SubEntry) (prunes : Bool) (now : Instant) (limits : UpLimits) : SubEntry :=
  let active := entry.cooling now
  if !prunes && active then entry
  else
    let level := entry.nextLevel prunes limits
    let until_ := now + seconds level
    { entry with
      levelSecs := level
      until_ := some (entry.until_.elim until_ fun current => max current until_)
      denied := if active then entry.denied else false }

/-- Forget the cooldown; true if nothing is left worth keeping. -/
def clearCooldown (entry : SubEntry) : Bool × SubEntry :=
  (entry.refusedAt.isNone, { entry with until_ := none, levelSecs := 0, denied := false })

end SubEntry

/-! ## The state and the order of its maps -/

structure State where
  dest : Table DestKey Dest
  user : Table (String × DestKey) UserEntry
  subs : Table SubKey SubEntry
  /-- Bumped on every call. -/
  calls : ℕ
  /-- Bumped for every destination entry created. -/
  generations : ℕ

def State.initial : State := ⟨∅, ∅, ∅, 0, 0⟩

/-- An order in which the entries of a map come up. -/
structure Reordering (α : Type) where
  apply : List α → List α
  perm (l : List α) : (apply l).Perm l

def Reordering.stored {α : Type} : Reordering α := ⟨id, fun l => List.Perm.refl l⟩

/-- The orders a call meets. -/
structure Iteration where
  dest : Reordering (Sigma fun _ : DestKey => Dest)
  user : Reordering (Sigma fun _ : String × DestKey => UserEntry)
  subs : Reordering (Sigma fun _ : SubKey => SubEntry)

def Iteration.stored : Iteration := ⟨.stored, .stored, .stored⟩

/-! ## Making room -/

/-- Eviction order: the fullest entry first, then the least recently touched. -/
def evictFirst (fullness : ℚ) (touched : ℕ) : Lex (ℚᵒᵈ × ℕ) :=
  toLex (OrderDual.toDual fullness, touched)

/-- The entry for ntfy.sh is never evicted. -/
def evictable (key : DestKey) : Bool := key ≠ .ntfy

def candidates (map : Table DestKey Dest) : ℕ := map.countKeys evictable

def allProtected (map : Table DestKey Dest) : Bool :=
  map.entries.all fun e => !evictable e.1 || e.2.isProtected

variable (limits : UpLimits) (iteration : Iteration)

/-- The first of those that are evicted first; a protected one only if all are. -/
def destVictim (map : Table DestKey Dest) :
    Option DestKey :=
  (((iteration.dest.apply map.entries).filter fun e =>
    evictable e.1 && (allProtected map || !e.2.isProtected)).argmin fun e =>
      evictFirst (e.2.fullness (limits.dest e.1)) e.2.touched).map Sigma.fst

/-- What is kept before any victim is chosen. -/
def dropIdleFull (limits : UpLimits) (now : Instant) (map : Table DestKey Dest) :
    Table DestKey Dest :=
  (map.mapRows fun key dest => dest.refill (limits.dest key) now).retain fun key dest =>
    !evictable key || !dest.idleFull (limits.dest key)

def makeDestRoom (now : Instant)
    (map : Table DestKey Dest) : Table DestKey Dest :=
  if candidates map < limits.maxDestKeys then map
  else
    (dropIdleFull limits now map).evict (fun map => limits.maxDestKeys ≤ candidates map)
      (destVictim limits iteration)

def userVictim (map : Table (String × DestKey) UserEntry) : Option (String × DestKey) :=
  ((iteration.user.apply map.entries).argmin fun e =>
    evictFirst (e.2.bucket.fullness (limits.dest e.1.2).user) e.2.touched).map Sigma.fst

def makeUserRoom (now : Instant)
    (map : Table (String × DestKey) UserEntry) : Table (String × DestKey) UserEntry :=
  if map.keys.length < limits.maxUserKeys then map
  else
    let map := (map.mapRows fun pair entry =>
      { entry with bucket := entry.bucket.refill (limits.dest pair.2).user now }).retain
        fun pair entry => !entry.bucket.isFull (limits.dest pair.2).user
    map.evict (fun map => limits.maxUserKeys ≤ map.keys.length) (userVictim limits iteration)

def subVictim (iteration : Iteration) (map : Table SubKey SubEntry) : Option SubKey :=
  ((iteration.subs.apply map.entries).argmin fun e => e.2.end_).map Sigma.fst

/-- It ended a while ago. -/
def forgotten (now : Instant) (entry : SubEntry) : Bool :=
  match entry.end_ with
  | ⊥ => true
  | (end_ : Instant) => subForgetAfter ≤ ((now - end_).toNat : ℤ)

def makeSubRoom (maxKeys : ℕ) (iteration : Iteration) (now : Instant)
    (map : Table SubKey SubEntry) : Table SubKey SubEntry :=
  if map.keys.length < maxKeys then map
  else
    (map.retain fun _ entry => !forgotten now entry).evict
      (fun map => maxKeys ≤ map.keys.length) (subVictim iteration)

/-! ## Entries -/

namespace State

/-- The entry of the destination, refilled and stamped. A new key starts full. -/
def destFor (key : DestKey) (now : Instant)
    (s : State) : State × Dest :=
  let map :=
    if evictable key ∧ s.dest.get key = none then makeDestRoom limits iteration now s.dest
    else s.dest
  let (dest, generations) :=
    match map.get key with
    | some dest => (dest, s.generations)
    | none =>
      let generations := wrappingAddU64 s.generations 1
      (Dest.new (limits.dest key) now generations, generations)
  let dest := { dest.refill (limits.dest key) now with touched := s.calls }
  ({ s with dest := map.insert key dest, generations }, dest)

/-- The bucket of the user at the destination, refilled and stamped. A new pair starts full. -/
def userFor (userId : String) (key : DestKey)
    (now : Instant) (s : State) : State × TokenBucket :=
  let map :=
    if s.user.get (userId, key) = none then makeUserRoom limits iteration now s.user else s.user
  let rate := (limits.dest key).user
  let bucket := ((map.get (userId, key)).elim (.full rate now) UserEntry.bucket).refill rate now
  ({ s with user := map.insert (userId, key) { bucket, touched := s.calls } }, bucket)

/-- The entry of the subscription, empty if there was none. -/
def subEntry (sub : SubKey) (now : Instant)
    (s : State) : State × SubEntry :=
  let map :=
    if s.subs.get sub = none then makeSubRoom limits.maxSubKeys iteration now s.subs else s.subs
  let entry := (map.get sub).getD .empty
  ({ s with subs := map.insert sub entry }, entry)

def setDest (key : DestKey) (dest : Dest) (s : State) : State :=
  { s with dest := s.dest.insert key dest }

def setSub (sub : SubKey) (entry : SubEntry) (s : State) : State :=
  { s with subs := s.subs.insert sub entry }

def setUser (userId : String) (key : DestKey) (bucket : TokenBucket) (s : State) : State :=
  { s with user := s.user.modify (userId, key) fun entry => { entry with bucket } }

def bumpCalls (s : State) : State := { s with calls := wrappingAddU64 s.calls 1 }

end State

/-! ## Tickets -/

/-- The bucket that refused a send. -/
inductive Bucket where
  | ip
  | user
  | paused
  | subscription

/-- An admitted send's reservation. -/
structure Ticket where
  userId : String
  sub : SubKey
  key : DestKey
  generation : ℕ
  /-- Cleared once completed. -/
  armed : Bool
  deriving DecidableEq

inductive Admit where
  | allowed (ticket : Ticket)
  | wait
  | denied (first : Bool) (bucket : Bucket)

namespace State

/-- Take a token from both buckets and reserve a slot. -/
def reserve (userId : String) (sub : SubKey) (key : DestKey) (dest : Dest) (user : TokenBucket)
    (s : State) : State × Admit :=
  let dest :=
    { dest with
      send := { dest.send with tokens := dest.send.tokens - 1 }
      inFlight := saturatingAddU32 dest.inFlight 1
      senders := recordOffender dest.senders userId }
  ((s.setDest key dest).setUser userId key { user with tokens := user.tokens - 1 },
    .allowed { userId, sub, key, generation := dest.generation, armed := true })

/-- What the destination, and after it the user, say of a send. -/
def admitAt (userId : String) (sub : SubKey)
    (key : DestKey) (now : Instant) (dest : Dest) (s : State) : State × Admit :=
  if dest.paused then
    (s.setDest key { dest with reject := dest.reject.deny.2 }, .denied dest.reject.deny.1 .paused)
  else if (limits.dest key).maxInFlight.toNat ≤ dest.inFlight ∨
      dest.reject.tokens - dest.inFlight < 1 then
    (s, .wait)
  else if dest.send.tokens < 1 then
    (s.setDest key { dest with send := dest.send.deny.2 }, .denied dest.send.deny.1 .ip)
  else
    let (s, user) := s.userFor limits iteration userId key now
    if user.tokens < 1 then (s.setUser userId key user.deny.2, .denied user.deny.1 .user)
    else s.reserve userId sub key dest user

/-- Admit a send, or take nothing and say why. A cooling subscription is refused first. -/
def admitSend (userId : String) (sub : SubKey)
    (key : DestKey) (now : Instant) (s : State) : State × Admit :=
  let s := s.bumpCalls
  match (s.subs.get sub).filter (·.cooling now) with
  | some entry => (s.setSub sub entry.deny.2, .denied entry.deny.1 .subscription)
  | none =>
    let (s, dest) := s.destFor limits iteration key now
    s.admitAt limits iteration userId sub key now dest

/-- Hold back the user's sends to the destination after a 429. -/
def drainUser (userId : String) (key : DestKey)
    (now : Instant) (s : State) : State :=
  let rate := (limits.dest key).user
  let (s, bucket) := s.bumpCalls.userFor limits iteration userId key now
  s.setUser userId key { bucket with tokens := -(limits.user429CooldownSecs * rate.refillPerSec) }

/-- The users with the most admitted sends since the last call. -/
def topSenders (key : DestKey) (s : State) : State × List Offender × ℕ :=
  match s.dest.get key with
  | some dest => (s.setDest key { dest with senders := [] }, takeTop dest.senders)
  | none => (s, [], 0)

/-- True at most once an hour per subscription. -/
def firstRefusal (sub : SubKey) (now : Instant)
    (s : State) : State × Bool :=
  let (s, entry) := s.subEntry limits iteration sub now
  let due := entry.refusedAt.all fun earlier => refusalLogInterval ≤ ((now - earlier).toNat : ℤ)
  (if due then s.setSub sub { entry with refusedAt := some now } else s, due)

/-! ## Completing a ticket -/

/-- The entry, if it is still the one the ticket reserved on. -/
def liveDest (key : DestKey) (generation : ℕ) (s : State) : Option Dest :=
  (s.dest.get key).filter fun dest => dest.generation = generation

def releaseSlot (key : DestKey) (generation : ℕ) (s : State) : State :=
  match s.liveDest key generation with
  | some dest => s.setDest key dest.release
  | none => s

def completeSuccess (key : DestKey) (generation : ℕ) (sub : SubKey) (s : State) : State :=
  let s := s.releaseSlot key generation
  match s.subs.get sub with
  | some entry =>
    let s := s.setSub sub entry.clearCooldown.2
    if entry.clearCooldown.1 then { s with subs := s.subs.erase sub } else s
  | none => s

def completeRejected (userId : String) (sub : SubKey)
    (key : DestKey) (generation : ℕ) (prunes : Bool) (status : Option UInt16) (now : Instant)
    (s : State) : State × Rejected :=
  let destLimits := limits.dest key
  let pause : Bool := status = some 503 ∧ 0 < destLimits.pauseOn503Secs
  let s := s.bumpCalls
  let (s, rejected) :=
    match s.liveDest key generation with
    | some dest =>
      let (dest, rejected) := { dest with touched := s.calls }.rejectOne destLimits userId pause now
      (s.setDest key dest, rejected)
    -- an evicted destination has nothing of this ticket's
    | none => (s, .counted)
  let (s, entry) := s.subEntry limits iteration sub now
  (s.setSub sub (entry.cool prunes now limits), rejected)

end State

namespace Ticket

/-- `Drop`: a ticket that was not completed gives its reservation back. -/
def dropped (ticket : Ticket) (s : State) : State :=
  if ticket.armed then s.releaseSlot ticket.key ticket.generation else s

/-- The push server accepted the send. -/
def success (ticket : Ticket) (s : State) : State :=
  let ticket := { ticket with armed := false }
  ticket.dropped (s.completeSuccess ticket.key ticket.generation ticket.sub)

/-- The push server answered with a rejection. -/
def rejected (ticket : Ticket) (prunes : Bool)
    (status : Option UInt16) (now : Instant) (s : State) : State × Rejected :=
  let ticket := { ticket with armed := false }
  let (s, rejected) := s.completeRejected limits iteration ticket.userId ticket.sub ticket.key
    ticket.generation prunes status now
  (ticket.dropped s, rejected)

end Ticket

/-! ## The limiter and its callers -/

/-- A limiter keeps at least one entry in each map. -/
structure UpLimiter where
  limits : UpLimits
  maxDestKeys_pos : 0 < limits.maxDestKeys
  maxUserKeys_pos : 0 < limits.maxUserKeys
  maxSubKeys_pos : 0 < limits.maxSubKeys

/-- A limiter with explicit limits, where a maximum of zero acts as one. -/
def UpLimiter.with_ (limits : UpLimits) : UpLimiter where
  limits :=
    { limits with
      maxDestKeys := max limits.maxDestKeys 1
      maxUserKeys := max limits.maxUserKeys 1
      maxSubKeys := max limits.maxSubKeys 1 }
  maxDestKeys_pos := Nat.lt_of_lt_of_le Nat.one_pos (le_max_right _ _)
  maxUserKeys_pos := Nat.lt_of_lt_of_le Nat.one_pos (le_max_right _ _)
  maxSubKeys_pos := Nat.lt_of_lt_of_le Nat.one_pos (le_max_right _ _)

def UpLimiter.new : UpLimiter := .with_ .default

/-- What the callers of a limiter do. -/
inductive Op where
  | admitSend (userId : String) (sub : SubKey) (key : DestKey)
  | success (ticket : Ticket)
  | rejected (ticket : Ticket) (prunes : Bool) (status : Option UInt16)
  | drop (ticket : Ticket)
  | drainUser (userId : String) (key : DestKey)
  | topSenders (key : DestKey)
  | firstRefusal (sub : SubKey)

/-- A call, when it is made, and the orders it meets. -/
structure Call where
  now : Instant
  iteration : Iteration
  op : Op

inductive Answer where
  | admission (admission : Admit)
  | rejected (rejected : Rejected)
  | senders (top : List Offender) (others : ℕ)
  | refusal (due : Bool)
  | done

/-- The limiter's state and the tickets that are neither completed nor dropped. -/
structure World where
  state : State
  live : List Ticket

def World.initial : World := ⟨.initial, []⟩

/-- The tickets that come of an answer. -/
def Admit.tickets : Admit → List Ticket
  | .allowed ticket => [ticket]
  | _ => []

namespace UpLimiter

/-- One call. -/
def exec (limiter : UpLimiter) (w : World) (call : Call) : World × Answer :=
  let limits := limiter.limits
  match call.op with
  | .admitSend userId sub key =>
    let (state, admission) := w.state.admitSend limits call.iteration userId sub key call.now
    ({ state, live := admission.tickets ++ w.live }, .admission admission)
  | .success ticket => ({ state := ticket.success w.state, live := w.live.erase ticket }, .done)
  | .rejected ticket prunes status =>
    let (state, rejected) := ticket.rejected limits call.iteration prunes status call.now w.state
    ({ state, live := w.live.erase ticket }, .rejected rejected)
  | .drop ticket => ({ state := ticket.dropped w.state, live := w.live.erase ticket }, .done)
  | .drainUser userId key =>
    ({ w with state := w.state.drainUser limits call.iteration userId key call.now }, .done)
  | .topSenders key =>
    let (state, top, others) := w.state.topSenders key
    ({ w with state }, .senders top others)
  | .firstRefusal sub =>
    let (state, due) := w.state.firstRefusal limits call.iteration sub call.now
    ({ w with state }, .refusal due)

end UpLimiter

/-- The tickets a call completes or drops. -/
def Op.completes : Op → List Ticket
  | .success ticket | .rejected ticket _ _ | .drop ticket => [ticket]
  | _ => []

/-- A ticket is completed by who holds it, and once. -/
def Holds (w : World) (call : Call) : Prop := ∀ ticket ∈ call.op.completes, ticket ∈ w.live

instance (w : World) (call : Call) : Decidable (Holds w call) :=
  inferInstanceAs (Decidable (∀ ticket ∈ call.op.completes, ticket ∈ w.live))

end SlogaBackend.Pushd
