import SlogaBackend.Lib.Runs
import SlogaBackend.Voice.State

/-!
# The handlers of voice webhooks

A connection joins a room of the SFU, leaves it or is evicted from it, and each of the two events
has a webhook handler. A handler is a chain of commands, and so are a removal of a user from a
channel and the repair that a reader of a roster makes; between two commands the others go on.
Every handler, removal and reader has a phase here, the command it makes next with what it has read
so far.

`create_voice_state` is a pipeline. `whole` says that nobody comes between its commands.

The handler of a leave also recomputes the flags of a user whose other connection stays; the tracks
of a connection are left out here, and with them that write.
-/

namespace SlogaBackend.Voice

/-! ## The phases -/

/-- `participant_joined`, from the record on. -/
inductive JoinPhase where
  /-- The webhook has not come; the handler begins with `record_voice_connection`. -/
  | waiting
  /-- `set_voice_participant_identity`. -/
  | setIdentity (first : Bool)
  /-- `recorded_voice_connections`. -/
  | readRecord
  /-- `get_voice_state`. -/
  | readState (recorded : List (String × Identity))
  /-- `create_voice_state`. -/
  | create
  | writing (left : List Write)
  | done
  deriving DecidableEq

/-- `participant_left`. -/
inductive LeavePhase where
  /-- The webhook has not come; the handler begins with the peek of `delete_voice_connection`. -/
  | waiting
  /-- The script of `delete_voice_connection`. -/
  | script
  /-- A sibling survives: `recorded_voice_connections`. -/
  | readRecord
  /-- `list_participants_reported`. -/
  | list (recorded : List (String × Identity))
  /-- `delete_voice_connections`. -/
  | dropStale (stale : List String)
  | done
  deriving DecidableEq

/-- A participant of a room, and the two handlers of its webhooks. -/
structure Connection where
  channel : UserVoiceChannel
  identity : Identity
  /-- `created_at` of the join event, in seconds. -/
  createdAt : Int
  /-- How many connections came before it. -/
  visit : Nat
  /-- The SFU lists it: it has not left and was not evicted. -/
  live : Bool
  join : JoinPhase
  leave : LeavePhase
  deriving DecidableEq

/-- `user_id_from_participant_identity`. -/
def Connection.user (conn : Connection) : String := conn.identity.user

def Connection.joinedAt (conn : Connection) : Timestamp := conn.createdAt * 1000000000

/-- `remove_user_from_voice_channel`. -/
inductive RemovalPhase where
  | readRecord
  /-- `holds_voice_state_in`. -/
  | holds (recorded : List String)
  /-- `remove_user_if_present_sids`: the listing, and the eviction of all it names. -/
  | evict (recorded : List String) (holdsState : Bool)
  /-- `tear_down_removed_connections`. -/
  | tearDown (sids : List String)
  | done
  deriving DecidableEq

structure Removal where
  channel : UserVoiceChannel
  user : String
  phase : RemovalPhase

/-- `get_channel_voice_state`. -/
inductive ReaderPhase where
  | members
  /-- `get_voice_state` of the first of these. -/
  | state (members : List String)
  /-- `delete_voice_state` of one whose state was not found. -/
  | repair (user : String) (members : List String)
  | done
  deriving DecidableEq

structure Reader where
  channel : UserVoiceChannel
  phase : ReaderPhase

structure State where
  redis : Store
  connections : Table String Connection
  removals : Table Nat Removal
  readers : Table Nat Reader

/-- What can happen next. -/
inductive Action where
  /-- A connection joins the room of a channel. -/
  | connect (sid : String) (channel : UserVoiceChannel) (identity : Identity) (createdAt : Int)
  | disconnect (sid : String)
  /-- The handlers of a connection take their next step. -/
  | joined (sid : String)
  | left (sid : String)
  | startRemoval (n : Nat) (channel : UserVoiceChannel) (user : String)
  | removal (n : Nat)
  | startReader (n : Nat) (channel : UserVoiceChannel)
  | reader (n : Nat)

namespace State

def empty : State := ⟨.empty, ∅, ∅, ∅⟩

def withRedis (s : State) (redis : Store) : State := { s with redis }

def put (s : State) (sid : String) (conn : Connection) : State :=
  { s with connections := s.connections.insert sid conn }

def putRemoval (s : State) (n : Nat) (removal : Removal) : State :=
  { s with removals := s.removals.insert n removal }

def putReader (s : State) (n : Nat) (reader : Reader) : State :=
  { s with readers := s.readers.insert n reader }

/-- The sids in the SFU's listing of a room. -/
def listed (s : State) (channel : UserVoiceChannel) : List String :=
  (s.connections.entries.filter fun entry => entry.2.live ∧ entry.2.channel.id = channel.id).map
    Sigma.fst

/-- Those of a user. -/
def listedOf (s : State) (channel : UserVoiceChannel) (user : String) : List String :=
  (s.connections.entries.filter fun entry =>
    entry.2.live ∧ entry.2.channel.id = channel.id ∧ entry.2.user = user).map Sigma.fst

end State

section Put

variable {s : State} {r : Store} {sid sid' : String} {conn other : Connection}

theorem State.get_put (s : State) (r : Store) (sid sid' : String) (conn : Connection) :
    ((s.withRedis r).put sid conn).connections.get sid' =
      if sid' = sid then some conn else s.connections.get sid' :=
  get_insert ..

theorem State.get_put_self : ((s.withRedis r).put sid conn).connections.get sid = some conn :=
  (State.get_put ..).trans (if_pos rfl)

theorem State.get_put_of_ne (hsid : sid' ≠ sid) :
    ((s.withRedis r).put sid conn).connections.get sid' = s.connections.get sid' :=
  (State.get_put ..).trans (if_neg hsid)

theorem State.get_put_cases
    (hg : ((s.withRedis r).put sid conn).connections.get sid' = some other) :
    sid' = sid ∧ other = conn ∨ sid' ≠ sid ∧ s.connections.get sid' = some other := by
  rw [State.get_put] at hg
  split_ifs at hg with hsid
  · exact .inl ⟨hsid, (some.inj hg).symm⟩
  · exact .inr ⟨hsid, hg⟩

/-- The connection is known, and gone. -/
def State.Dead (s : State) (sid : String) : Prop :=
  ∃ conn, s.connections.get sid = some conn ∧ conn.live = false

/-- The connections that are known stay known, and those that are gone stay gone. -/
structure State.Grows (s s' : State) : Prop where
  known : ∀ sid, (s.connections.get sid).isSome → (s'.connections.get sid).isSome
  dead : ∀ sid, s.Dead sid → s'.Dead sid

variable {conn' : Connection}

theorem State.put_cases (hg : s.connections.get sid = some conn)
    (hoth : s.connections.get sid' = some other) : sid' = sid ∧ other = conn ∨
      sid' ≠ sid ∧ ((s.withRedis r).put sid conn').connections.get sid' = some other := by
  by_cases hsid : sid' = sid
  · subst hsid
    exact .inl ⟨rfl, some.inj (hoth.symm.trans hg)⟩
  · exact .inr ⟨hsid, (State.get_put_of_ne hsid).trans hoth⟩

theorem State.grows_put (hg : s.connections.get sid = some conn)
    (hli : conn.live = false → conn'.live = false) : s.Grows ((s.withRedis r).put sid conn') := by
  refine ⟨fun sid' hsm => ?_, fun sid' ⟨other, hoth, hde⟩ => ?_⟩
  · rw [State.get_put]
    split_ifs
    · rfl
    · exact hsm
  · rcases State.put_cases hg hoth with ⟨rfl, rfl⟩ | ⟨-, hkp⟩
    · exact ⟨conn', State.get_put_self, hli hde⟩
    · exact ⟨other, hkp, hde⟩

theorem State.get_put_of_free (hfr : s.connections.get sid = none)
    (hoth : s.connections.get sid' = some other) :
    (s.put sid conn).connections.get sid' = some other := by
  refine (State.get_put_of_ne (r := s.redis) ?_).trans hoth
  rintro rfl
  rw [hfr] at hoth
  cases hoth

theorem State.grows_connect (hfr : s.connections.get sid = none) : s.Grows (s.put sid conn) := by
  refine ⟨fun sid' hsm => ?_, fun sid' ⟨other, hoth, hde⟩ =>
    ⟨other, State.get_put_of_free hfr hoth, hde⟩⟩
  obtain ⟨other, hoth⟩ := isSome_iff_exists.mp hsm
  rw [State.get_put_of_free hfr hoth]
  rfl

theorem State.mem_entries : ⟨sid, conn⟩ ∈ s.connections.entries ↔ s.connections.get sid = some conn :=
  get_eq_some_iff.symm

end Put

/-! ## The steps -/

/-- `retried_first_connection`: this sid is the only one recorded. -/
def retriedFirstConnection (recorded : List (String × Identity)) (sid : String) : Bool :=
  match recorded with
  | [(only, _)] => only = sid
  | _ => false

def retriedJoin (state : Option UserVoiceState) (joinedAt : Timestamp)
    (recorded : List (String × Identity)) (sid : String) : Bool :=
  match state with
  | some state => state.joinedAt = joinedAt
  | none => retriedFirstConnection recorded sid

/-- The next step of `participant_joined`: what it makes of Redis, and its next phase. -/
def joinStep (whole : Bool) (redis : Store) (sid : String) (conn : Connection) :
    Option (Store × JoinPhase) :=
  match conn.join with
  | .waiting =>
    let (redis, first) := redis.recordVoiceConnection conn.channel conn.user sid conn.identity
    some (redis, .setIdentity first)
  | .setIdentity first =>
    some (redis.setVoiceParticipantIdentity conn.channel.id conn.user conn.identity,
      if first then .create else .readRecord)
  | .readRecord => some (redis, .readState (redis.recordedVoiceConnections conn.channel conn.user))
  | .readState recorded =>
    let state := redis.getVoiceState conn.channel conn.user
    -- a retry goes on with the state it finds, and creates one only if there is none
    if retriedJoin state conn.joinedAt recorded sid && state.isNone then some (redis, .create)
    else some (redis, .done)
  | .create =>
    if whole then some (redis.create conn.channel conn.user conn.joinedAt, .done)
    else some (redis, .writing (createVoiceState conn.channel conn.user conn.joinedAt))
  | .writing (write :: left) => some (redis.write write, .writing left)
  | .writing [] => some (redis, .done)
  | .done => none

/-- `stale_connections`: the recorded sids that are not listed. -/
def staleConnections (recorded : List (String × Identity)) (listed : List String) : List String :=
  (recorded.filter fun entry => entry.1 ∉ listed).map Prod.fst

/-- The next step of `participant_left`. -/
def leaveStep (redis : Store) (listed : List String) (sid : String) (conn : Connection) :
    Option (Store × LeavePhase) :=
  match conn.leave with
  | .waiting =>
    match redis.vcConns.get (conn.channel.id, sid) with
    | some identity => some (redis, if identity.user = conn.user then .script else .done)
    | none => some (redis, .script)
  | .script =>
    let (redis, answer) := redis.deleteVoiceState conn.channel conn.user (.connection sid)
    match answer with
    | .ok ⟨.survivor, _, _⟩ => some (redis, .readRecord)
    | _ => some (redis, .done)
  | .readRecord => some (redis, .list (redis.recordedVoiceConnections conn.channel conn.user))
  | .list recorded =>
    match staleConnections recorded listed with
    | [] => some (redis, .done)
    | stale => some (redis, .dropStale stale)
  | .dropStale stale =>
    some ((redis.deleteVoiceState conn.channel conn.user (.connections stale)).1, .done)
  | .done => none

def removalTeardownSids (evicted recorded : List String) : List String :=
  evicted ++ recorded.filter fun sid => sid ∉ evicted

/-- All listed connections of the user are gone. -/
def State.evict (s : State) (channel : UserVoiceChannel) (user : String) : State :=
  { s with connections := s.connections.mapValues fun conn =>
      if conn.channel.id = channel.id ∧ conn.user = user then { conn with live := false }
      else conn }

def removalStep (s : State) (n : Nat) (removal : Removal) : State :=
  match removal.phase with
  | .readRecord =>
    s.putRemoval n { removal with
      phase := .holds ((s.redis.recordedVoiceConnections removal.channel removal.user).map Prod.fst) }
  | .holds recorded =>
    s.putRemoval n { removal with
      phase := .evict recorded
        (!recorded.isEmpty || holdsVoiceStateIn s.redis removal.channel removal.user) }
  | .evict recorded holdsState =>
    let evicted := s.listedOf removal.channel removal.user
    -- nothing of the user here at all
    if !holdsState && evicted.isEmpty then s.putRemoval n { removal with phase := .done }
    else
      (s.evict removal.channel removal.user).putRemoval n { removal with
        phase := .tearDown (removalTeardownSids evicted recorded) }
  | .tearDown sids =>
    (s.withRedis (s.redis.deleteVoiceState removal.channel removal.user (.connections sids)).1)
      |>.putRemoval n { removal with phase := .done }
  | .done => s

/-- The next member, if there is one. -/
def ReaderPhase.next : List String → ReaderPhase
  | [] => .done
  | user :: rest => .state (user :: rest)

def readerStep (s : State) (n : Nat) (reader : Reader) : State :=
  match reader.phase with
  | .members =>
    s.putReader n { reader with
      phase := .next ((s.redis.getVoiceChannelMembers reader.channel).getD []) }
  | .state [] => s.putReader n { reader with phase := .done }
  | .state (user :: members) =>
    match s.redis.getVoiceState reader.channel user with
    | some _ => s.putReader n { reader with phase := .next members }
    | none => s.putReader n { reader with phase := .repair user members }
  | .repair user members =>
    (s.withRedis (s.redis.deleteVoiceState reader.channel user .user).1)
      |>.putReader n { reader with phase := .next members }
  | .done => s

/-- The handler of a leave runs once the connection is gone and the handler of its join is done. -/
def Connection.mayLeave (conn : Connection) : Bool := !conn.live && conn.join = .done

/-- One action. A sid and a number are used once. -/
def exec (whole : Bool) (s : State) : Action → State × Unit
  | .connect sid channel identity createdAt =>
    match s.connections.get sid with
    | some _ => (s, ())
    | none =>
      (s.put sid ⟨channel, identity, createdAt, s.connections.keys.length, true, .waiting, .waiting⟩,
        ())
  | .disconnect sid =>
    match s.connections.get sid with
    | some conn => (s.put sid { conn with live := false }, ())
    | none => (s, ())
  | .joined sid =>
    match s.connections.get sid with
    | some conn =>
      match joinStep whole s.redis sid conn with
      | some (redis, phase) => ((s.withRedis redis).put sid { conn with join := phase }, ())
      | none => (s, ())
    | none => (s, ())
  | .left sid =>
    match s.connections.get sid with
    | some conn =>
      if conn.mayLeave then
        match leaveStep s.redis (s.listed conn.channel) sid conn with
        | some (redis, phase) => ((s.withRedis redis).put sid { conn with leave := phase }, ())
        | none => (s, ())
      else (s, ())
    | none => (s, ())
  | .startRemoval n channel user =>
    match s.removals.get n with
    | some _ => (s, ())
    | none => (s.putRemoval n ⟨channel, user, .readRecord⟩, ())
  | .removal n =>
    match s.removals.get n with
    | some removal => (removalStep s n removal, ())
    | none => (s, ())
  | .startReader n channel =>
    match s.readers.get n with
    | some _ => (s, ())
    | none => (s.putReader n ⟨channel, .members⟩, ())
  | .reader n =>
    match s.readers.get n with
    | some reader => (readerStep s n reader, ())
    | none => (s, ())

/-! ## What a step does -/

/-- The steps of a handler of a join that leave Redis alone. -/
inductive JoinTurn (redis : Store) (sid : String) (conn : Connection) :
    JoinPhase → JoinPhase → Prop where
  | readRecord : JoinTurn redis sid conn .readRecord
      (.readState (redis.recordedVoiceConnections conn.channel conn.user))
  /-- There is no state and this is the only connection recorded. -/
  | retries (recorded : List (String × Identity)) :
      redis.getVoiceState conn.channel conn.user = none →
      retriedFirstConnection recorded sid = true →
      JoinTurn redis sid conn (.readState recorded) .create
  | settles (recorded : List (String × Identity)) :
      (redis.getVoiceState conn.channel conn.user).isSome ∨
        retriedFirstConnection recorded sid = false →
      JoinTurn redis sid conn (.readState recorded) .done
  | ends : JoinTurn redis sid conn (.writing []) .done

/-- Those of a handler of a leave. -/
inductive LeaveTurn (redis : Store) (listed : List String) (sid : String) (conn : Connection) :
    LeavePhase → LeavePhase → Prop where
  | peeks : LeaveTurn redis listed sid conn .waiting .script
  | foreign (identity : Identity) : redis.vcConns.get (conn.channel.id, sid) = some identity →
      identity.user ≠ conn.user → LeaveTurn redis listed sid conn .waiting .done
  | readRecord : LeaveTurn redis listed sid conn .readRecord
      (.list (redis.recordedVoiceConnections conn.channel conn.user))
  | lists (recorded : List (String × Identity)) :
      LeaveTurn redis listed sid conn (.list recorded) (.dropStale (staleConnections recorded listed))
  | confirms (recorded : List (String × Identity)) :
      LeaveTurn redis listed sid conn (.list recorded) .done

/-- Those of a removal that change nothing else. -/
inductive RemovalTurn (s : State) (removal : Removal) : RemovalPhase → RemovalPhase → Prop where
  | readRecord : RemovalTurn s removal .readRecord
      (.holds ((s.redis.recordedVoiceConnections removal.channel removal.user).map Prod.fst))
  | holds (recorded : List String) (holdsState : Bool) :
      RemovalTurn s removal (.holds recorded) (.evict recorded holdsState)
  | skips (recorded : List String) (holdsState : Bool) :
      RemovalTurn s removal (.evict recorded holdsState) .done

/-- Those of a reader. Who is to be torn down was a member without a state. -/
inductive ReaderTurn (s : State) (reader : Reader) : ReaderPhase → ReaderPhase → Prop where
  | members (members : List String) : ReaderTurn s reader .members (.next members)
  | found (user : String) (members : List String) :
      ReaderTurn s reader (.state (user :: members)) (.next members)
  | missing (user : String) (members : List String) :
      s.redis.getVoiceState reader.channel user = none →
      ReaderTurn s reader (.state (user :: members)) (.repair user members)
  | ends : ReaderTurn s reader (.state []) .done

/-- The connection is in the record. -/
def State.recorded (s : State) (sid : String) (conn : Connection) : State :=
  let answer := s.redis.recordVoiceConnection conn.channel conn.user sid conn.identity
  (s.withRedis answer.1).put sid { conn with join := .setIdentity answer.2 }

/-- The mapping names the connection. -/
def State.named (s : State) (sid : String) (conn : Connection) (first : Bool) : State :=
  (s.withRedis (s.redis.setVoiceParticipantIdentity conn.channel.id conn.user conn.identity)).put sid
    { conn with join := if first then .create else .readRecord }

/-- The script of a leave has run. -/
def State.tornDown (s : State) (sid : String) (conn : Connection) (mode : TeardownMode)
    (phase : LeavePhase) : State :=
  (s.withRedis (s.redis.deleteVoiceState conn.channel conn.user mode).1).put sid
    { conn with leave := phase }

/-- What an action that changes something does. -/
inductive Step (whole : Bool) (s : State) : Action → State → Prop where
  | connects (sid : String) (channel : UserVoiceChannel) (identity : Identity) (createdAt : Int) :
      s.connections.get sid = none →
      Step whole s (.connect sid channel identity createdAt) (s.put sid
        ⟨channel, identity, createdAt, s.connections.keys.length, true, .waiting, .waiting⟩)
  | disconnects (sid : String) (conn : Connection) : s.connections.get sid = some conn →
      Step whole s (.disconnect sid) (s.put sid { conn with live := false })
  | records (sid : String) (conn : Connection) : s.connections.get sid = some conn →
      conn.join = .waiting →
      Step whole s (.joined sid) (s.recorded sid conn)
  | names (sid : String) (conn : Connection) (first : Bool) : s.connections.get sid = some conn →
      conn.join = .setIdentity first →
      Step whole s (.joined sid) (s.named sid conn first)
  | joins (sid : String) (conn : Connection) (phase : JoinPhase) :
      s.connections.get sid = some conn → JoinTurn s.redis sid conn conn.join phase →
      Step whole s (.joined sid) (s.put sid { conn with join := phase })
  | begins (sid : String) (conn : Connection) : s.connections.get sid = some conn →
      whole = false → conn.join = .create →
      Step whole s (.joined sid) (s.put sid
        { conn with join := .writing (createVoiceState conn.channel conn.user conn.joinedAt) })
  | creates (sid : String) (conn : Connection) : s.connections.get sid = some conn →
      whole = true → conn.join = .create →
      Step whole s (.joined sid) ((s.withRedis
          (s.redis.create conn.channel conn.user conn.joinedAt)).put sid { conn with join := .done })
  | writes (sid : String) (conn : Connection) (write : Write) (left : List Write) :
      s.connections.get sid = some conn → conn.join = .writing (write :: left) →
      Step whole s (.joined sid) ((s.withRedis (s.redis.write write)).put sid
        { conn with join := .writing left })
  | leaves (sid : String) (conn : Connection) (phase : LeavePhase) :
      s.connections.get sid = some conn → conn.mayLeave = true →
      LeaveTurn s.redis (s.listed conn.channel) sid conn conn.leave phase →
      Step whole s (.left sid) (s.put sid { conn with leave := phase })
  | tearsDown (sid : String) (conn : Connection) (phase : LeavePhase) :
      s.connections.get sid = some conn → conn.mayLeave = true → conn.leave = .script →
      phase = .done ∨ phase = .readRecord ∧ (∃ foreign unknown,
        (s.redis.deleteVoiceState conn.channel conn.user (.connection sid)).2 =
          .ok ⟨.survivor, foreign, unknown⟩) →
      Step whole s (.left sid) (s.tornDown sid conn (.connection sid) phase)
  | drops (sid : String) (conn : Connection) (stale : List String) :
      s.connections.get sid = some conn → conn.mayLeave = true → conn.leave = .dropStale stale →
      Step whole s (.left sid) (s.tornDown sid conn (.connections stale) .done)
  | startsRemoval (n : Nat) (channel : UserVoiceChannel) (user : String) : s.removals.get n = none →
      Step whole s (.startRemoval n channel user) (s.putRemoval n ⟨channel, user, .readRecord⟩)
  | removes (n : Nat) (removal : Removal) (phase : RemovalPhase) :
      s.removals.get n = some removal → RemovalTurn s removal removal.phase phase →
      Step whole s (.removal n) (s.putRemoval n { removal with phase })
  | evicts (n : Nat) (removal : Removal) (recorded : List String) (holdsState : Bool) :
      s.removals.get n = some removal → removal.phase = .evict recorded holdsState →
      Step whole s (.removal n) ((s.evict removal.channel removal.user).putRemoval n
        { removal with
          phase := .tearDown (removalTeardownSids (s.listedOf removal.channel removal.user) recorded) })
  | tearsDownRemoved (n : Nat) (removal : Removal) (sids : List String) :
      s.removals.get n = some removal → removal.phase = .tearDown sids →
      Step whole s (.removal n) ((s.withRedis (s.redis.deleteVoiceState removal.channel
          removal.user (.connections sids)).1).putRemoval n { removal with phase := .done })
  | startsReader (n : Nat) (channel : UserVoiceChannel) : s.readers.get n = none →
      Step whole s (.startReader n channel) (s.putReader n ⟨channel, .members⟩)
  | reads (n : Nat) (reader : Reader) (phase : ReaderPhase) : s.readers.get n = some reader →
      ReaderTurn s reader reader.phase phase →
      Step whole s (.reader n) (s.putReader n { reader with phase })
  | repairs (n : Nat) (reader : Reader) (user : String) (members : List String) :
      s.readers.get n = some reader → reader.phase = .repair user members →
      Step whole s (.reader n) ((s.withRedis
          (s.redis.deleteVoiceState reader.channel user .user).1).putReader n
        { reader with phase := .next members })

section

variable {s : State} (whole : Bool)

theorem joined_step {sid : String} {conn : Connection} (hg : s.connections.get sid = some conn) :
    (exec whole s (.joined sid)).1 = s ∨ Step whole s (.joined sid) (exec whole s (.joined sid)).1 := by
  simp only [exec, hg]
  cases hjn : conn.join with
  | waiting =>
    simp only [joinStep, hjn]
    exact .inr (.records sid conn hg hjn)
  | setIdentity first =>
    simp only [joinStep, hjn]
    exact .inr (.names sid conn first hg hjn)
  | readRecord =>
    simp only [joinStep, hjn]
    exact .inr (.joins sid conn _ hg (hjn ▸ .readRecord))
  | readState recorded =>
    simp only [joinStep, hjn]
    cases hst : s.redis.getVoiceState conn.channel conn.user with
    | some state =>
      simp only [Option.isNone_some, Bool.and_false, Bool.false_eq_true, if_false]
      exact .inr (.joins sid conn _ hg (hjn ▸ .settles recorded (.inl (by rw [hst]; rfl))))
    | none =>
      simp only [retriedJoin, Option.isNone_none, Bool.and_true]
      cases hret : retriedFirstConnection recorded sid with
      | true => exact .inr (.joins sid conn _ hg (hjn ▸ .retries recorded hst hret))
      | false => exact .inr (.joins sid conn _ hg (hjn ▸ .settles recorded (.inr hret)))
  | create =>
    cases whole with
    | true =>
      simp only [joinStep, hjn, if_true]
      exact .inr (.creates sid conn hg rfl hjn)
    | false =>
      simp only [joinStep, hjn, Bool.false_eq_true, if_false]
      exact .inr (.begins sid conn hg rfl hjn)
  | writing left =>
    cases left with
    | nil =>
      simp only [joinStep, hjn]
      exact .inr (.joins sid conn _ hg (hjn ▸ .ends))
    | cons write left =>
      simp only [joinStep, hjn]
      exact .inr (.writes sid conn write left hg hjn)
  | done =>
    simp only [joinStep, hjn]
    exact .inl trivial

theorem left_step {sid : String} {conn : Connection} (hg : s.connections.get sid = some conn) :
    (exec whole s (.left sid)).1 = s ∨ Step whole s (.left sid) (exec whole s (.left sid)).1 := by
  simp only [exec, hg]
  by_cases hmay : conn.mayLeave = true
  · rw [if_pos hmay]
    cases hlv : conn.leave with
    | waiting =>
      simp only [leaveStep, hlv]
      cases hfor : s.redis.vcConns.get (conn.channel.id, sid) with
      | none => exact .inr (.leaves sid conn _ hg hmay (hlv ▸ .peeks))
      | some identity =>
        by_cases huse : identity.user = conn.user
        · simp only [huse, if_true]
          exact .inr (.leaves sid conn _ hg hmay (hlv ▸ .peeks))
        · simp only [huse, if_false]
          exact .inr (.leaves sid conn _ hg hmay (hlv ▸ .foreign identity hfor huse))
    | script =>
      simp only [leaveStep, hlv]
      split
      · rename_i heq
        split at heq <;> cases heq
        · rename_i hans
          exact .inr (.tearsDown sid conn _ hg hmay hlv (.inr ⟨rfl, _, _, hans⟩))
        · exact .inr (.tearsDown sid conn _ hg hmay hlv (.inl rfl))
      · rename_i heq
        split at heq <;> cases heq
    | readRecord =>
      simp only [leaveStep, hlv]
      exact .inr (.leaves sid conn _ hg hmay (hlv ▸ .readRecord))
    | list recorded =>
      simp only [leaveStep, hlv]
      split
      · rename_i heq
        split at heq <;> cases heq
        · exact .inr (.leaves sid conn _ hg hmay (hlv ▸ .confirms recorded))
        · exact .inr (.leaves sid conn _ hg hmay (hlv ▸ .lists recorded))
      · rename_i heq
        split at heq <;> cases heq
    | dropStale stale =>
      simp only [leaveStep, hlv]
      exact .inr (.drops sid conn stale hg hmay hlv)
    | done =>
      simp only [leaveStep, hlv]
      exact .inl trivial
  · rw [if_neg hmay]
    exact .inl rfl

theorem removal_step {n : Nat} {removal : Removal} (hg : s.removals.get n = some removal) :
    removalStep s n removal = s ∨ Step whole s (.removal n) (removalStep s n removal) := by
  cases hph : removal.phase with
  | readRecord =>
    simp only [removalStep, hph]
    exact .inr (.removes n removal _ hg (hph ▸ .readRecord))
  | holds recorded =>
    simp only [removalStep, hph]
    exact .inr (.removes n removal _ hg (hph ▸ .holds recorded _))
  | evict recorded holdsState =>
    simp only [removalStep, hph]
    split
    · exact .inr (.removes n removal _ hg (hph ▸ .skips recorded holdsState))
    · exact .inr (.evicts n removal recorded holdsState hg hph)
  | tearDown sids =>
    simp only [removalStep, hph]
    exact .inr (.tearsDownRemoved n removal sids hg hph)
  | done =>
    simp only [removalStep, hph]
    exact .inl trivial

theorem reader_step {n : Nat} {reader : Reader} (hg : s.readers.get n = some reader) :
    readerStep s n reader = s ∨ Step whole s (.reader n) (readerStep s n reader) := by
  cases hph : reader.phase with
  | members =>
    simp only [readerStep, hph]
    exact .inr (.reads n reader _ hg (hph ▸ .members _))
  | state members =>
    cases members with
    | nil =>
      simp only [readerStep, hph]
      exact .inr (.reads n reader _ hg (hph ▸ .ends))
    | cons user members =>
      simp only [readerStep, hph]
      split
      · exact .inr (.reads n reader _ hg (hph ▸ .found user members))
      · rename_i hno
        exact .inr (.reads n reader _ hg (hph ▸ .missing user members hno))
  | repair user members =>
    simp only [readerStep, hph]
    exact .inr (.repairs n reader user members hg hph)
  | done =>
    simp only [readerStep, hph]
    exact .inl trivial

end

theorem exec_step (whole : Bool) (s : State) (action : Action) :
    (exec whole s action).1 = s ∨ Step whole s action (exec whole s action).1 := by
  cases action with
  | connect sid channel identity createdAt =>
    simp only [exec]
    split
    · exact .inl rfl
    · exact .inr (.connects sid channel identity createdAt ‹_›)
  | disconnect sid =>
    simp only [exec]
    split
    · exact .inr (.disconnects sid _ ‹_›)
    · exact .inl rfl
  | joined sid =>
    cases hg : s.connections.get sid with
    | none => exact .inl (by simp only [exec, hg])
    | some conn => exact joined_step whole hg
  | left sid =>
    cases hg : s.connections.get sid with
    | none => exact .inl (by simp only [exec, hg])
    | some conn => exact left_step whole hg
  | startRemoval n channel user =>
    simp only [exec]
    split
    · exact .inl rfl
    · exact .inr (.startsRemoval n channel user ‹_›)
  | removal n =>
    simp only [exec]
    split
    · exact removal_step whole ‹_›
    · exact .inl rfl
  | startReader n channel =>
    simp only [exec]
    split
    · exact .inl rfl
    · exact .inr (.startsReader n channel ‹_›)
  | reader n =>
    simp only [exec]
    split
    · exact reader_step whole ‹_›
    · exact .inl rfl

/-! ## The connections to one channel -/

/-- What is so of a connection to the channel, whoever else works on Redis. -/
structure Steady (channel : UserVoiceChannel) (user : String) (s : State) (sid : String)
    (conn : Connection) : Prop where
  here : conn.channel = channel
  owner : conn.user = user
  ordered : conn.leave ≠ .waiting → conn.join = .done
  recorded : conn.live = true → conn.join ≠ .waiting →
    s.redis.vcConns.get (channel.id, sid) = some conn.identity
  list : ∀ recorded, conn.leave = .list recorded →
    ∀ entry ∈ recorded, (s.connections.get entry.1).isSome
  drop : ∀ stale, conn.leave = .dropStale stale → ∀ sid ∈ stale, s.Dead sid

namespace Steady

variable {channel : UserVoiceChannel} {user : String} {s s' : State} {sid : String}
  {conn : Connection}

theorem still (h : Steady channel user s sid conn)
    (hrec : conn.live = true → s.redis.vcConns.get (channel.id, sid) = some conn.identity →
      s'.redis.vcConns.get (channel.id, sid) = some conn.identity) (hgrow : s.Grows s') :
    Steady channel user s' sid conn where
  here := h.here
  owner := h.owner
  ordered := h.ordered
  recorded hli hstd := hrec hli (h.recorded hli hstd)
  list recorded hph entry hent := hgrow.known _ (h.list recorded hph entry hent)
  drop stale hph sid hsid := hgrow.dead _ (h.drop stale hph sid hsid)

theorem fresh (hhr : conn.channel = channel) (hown : conn.user = user)
    (hjn : conn.join = .waiting) (hlv : conn.leave = .waiting) : Steady channel user s sid conn :=
  ⟨hhr, hown, fun h => absurd hlv h, fun _ h => absurd hjn h, by simp [hlv], by simp [hlv]⟩

section

variable (h : Steady channel user s sid conn)
include h

theorem disconnected : Steady channel user s sid { conn with live := false } :=
  ⟨h.here, h.owner, h.ordered, nofun, h.list, h.drop⟩

theorem leave_eq (hjn : conn.join ≠ .done) : conn.leave = .waiting := by
  by_contra hlv
  exact hjn (h.ordered hlv)

theorem joined {phase : JoinPhase} (hjn : conn.join ≠ .done) (hrec : conn.live = true →
      s.redis.vcConns.get (channel.id, sid) = some conn.identity) :
    Steady channel user s sid { conn with join := phase } :=
  ⟨h.here, h.owner, fun hlv => absurd (h.leave_eq hjn) hlv, fun hli _ => hrec hli, h.list, h.drop⟩

theorem left (hmay : conn.mayLeave = true) {phase : LeavePhase}
    (hls : ∀ recorded, phase = .list recorded →
      ∀ entry ∈ recorded, (s.connections.get entry.1).isSome)
    (hdr : ∀ stale, phase = .dropStale stale → ∀ sid ∈ stale, s.Dead sid) :
    Steady channel user s sid { conn with leave := phase } := by
  simp only [Connection.mayLeave, and_eq_true, not_eq_true', decide_eq_true_eq] at hmay
  refine ⟨h.here, h.owner, fun _ => hmay.2, fun hli => ?_, hls, hdr⟩
  exact absurd (hmay.1.symm.trans hli) nofun

end

end Steady

section Room

variable {channel : UserVoiceChannel} {user : String} {s : State} {sid : String} {conn : Connection}

theorem dead_of_stale (hhr : ∀ sid conn, s.connections.get sid = some conn → conn.channel = channel)
    {recorded : List (String × Identity)}
    (hkn : ∀ entry ∈ recorded, (s.connections.get entry.1).isSome)
    (hstal : sid ∈ staleConnections recorded (s.listed channel)) : s.Dead sid := by
  simp only [staleConnections, mem_map, mem_filter, decide_eq_true_eq] at hstal
  obtain ⟨entry, ⟨hent, hunl⟩, rfl⟩ := hstal
  obtain ⟨other, hoth⟩ := isSome_iff_exists.mp (hkn entry hent)
  refine ⟨other, hoth, eq_false_iff.mpr fun hli => hunl ?_⟩
  exact mem_map.mpr ⟨⟨entry.1, other⟩, mem_filter.mpr ⟨State.mem_entries.mpr hoth,
    decide_eq_true ⟨hli, congrArg _ (hhr _ other hoth)⟩⟩, rfl⟩

theorem Steady.turned (h : Steady channel user s sid conn) (hg : s.connections.get sid = some conn)
    (hhr : ∀ sid conn, s.connections.get sid = some conn → conn.channel = channel)
    (hkn : ∀ sid identity, s.redis.vcConns.get (channel.id, sid) = some identity →
      (s.connections.get sid).isSome) (hmay : conn.mayLeave = true) {phase : LeavePhase}
    (htr : LeaveTurn s.redis (s.listed conn.channel) sid conn conn.leave phase) :
    Steady channel user (s.put sid { conn with leave := phase }) sid
      { conn with leave := phase } := by
  have hgrow : s.Grows (s.put sid { conn with leave := phase }) := State.grows_put hg id
  have hnx : (∀ recorded, phase = .list recorded →
      ∀ entry ∈ recorded, (s.connections.get entry.1).isSome) ∧
        ∀ stale, phase = .dropStale stale → ∀ sid ∈ stale, s.Dead sid := by
    generalize hlv : conn.leave = leave at htr
    cases htr with
    | readRecord =>
      refine ⟨fun recorded hph entry hent => ?_, nofun⟩
      obtain rfl := LeavePhase.list.inj hph
      obtain ⟨hrec, -⟩ := Store.mem_recordedVoiceConnections.mp hent
      exact hkn _ _ (h.here ▸ hrec)
    | lists recorded =>
      refine ⟨nofun, fun stale hph sid' hsid => ?_⟩
      obtain rfl := LeavePhase.dropStale.inj hph
      exact dead_of_stale hhr (h.list recorded hlv) (h.here ▸ hsid)
    | _ => exact ⟨nofun, nofun⟩
  have hstl : Steady channel user (s.put sid { conn with leave := phase }) sid conn :=
    h.still (fun _ hrec => hrec) hgrow
  refine hstl.left hmay (fun recorded hph entry hent => ?_) fun stale hph sid' hsid => ?_
  · exact hgrow.known _ (hnx.1 recorded hph entry hent)
  · exact hgrow.dead _ (hnx.2 stale hph sid' hsid)

theorem Store.recordVoiceConnection_get (r : Store) (identity : Identity) (sid' : String) :
    (r.recordVoiceConnection channel user sid identity).1.vcConns.get (channel.id, sid') =
      if sid' = sid then some identity else r.vcConns.get (channel.id, sid') := by
  refine (get_insert ..).trans (if_congr ?_ rfl rfl)
  simp

theorem Store.recordVoiceConnection_cases {r : Store} {identity identity' : Identity}
    {sid' : String} (hg : (r.recordVoiceConnection channel user sid identity).1.vcConns.get
      (channel.id, sid') = some identity') :
    sid' = sid ∧ identity' = identity ∨ r.vcConns.get (channel.id, sid') = some identity' := by
  rw [Store.recordVoiceConnection_get] at hg
  split_ifs at hg with hsid
  · exact .inl ⟨hsid, (some.inj hg).symm⟩
  · exact .inr hg

theorem State.recordVoiceConnection_keeps (hg : s.connections.get sid = some conn) {sid' : String}
    {other : Connection} (hoth : s.connections.get sid' = some other)
    (hrec : s.redis.vcConns.get (channel.id, sid') = some other.identity) :
    (s.redis.recordVoiceConnection channel user sid conn.identity).1.vcConns.get
      (channel.id, sid') = some other.identity := by
  rw [Store.recordVoiceConnection_get]
  split_ifs with hsid
  · subst hsid
    exact congrArg (fun c => some c.identity) (some.inj (hg.symm.trans hoth))
  · exact hrec

theorem State.Dead.not_live (hde : s.Dead sid) (hg : s.connections.get sid = some conn) :
    conn.live = false := by
  obtain ⟨other, hoth, hli⟩ := hde
  exact some.inj (hoth.symm.trans hg) ▸ hli

end Room

end SlogaBackend.Voice
