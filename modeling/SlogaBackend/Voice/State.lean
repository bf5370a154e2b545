import SlogaBackend.Base
import SlogaBackend.Lib.Table

/-!
# Voice state

What Redis has of the users in voice channels. Some of it is kept per channel: the roster, the
connections and the identity a user was last seen under. The rest is kept per server, or per
channel where there is no server: nine keys, and the pointer that says which channel they are about.

`createVoiceState` is a pipeline, so others may come between its commands. `teardown` is one
script. No key here has a lifetime.
-/

namespace SlogaBackend.Voice

structure UserVoiceChannel where
  id : String
  serverId : Option String
  deriving DecidableEq

/-- What the keys of a server are scoped by: `server_id.unwrap_or(id)`. -/
def UserVoiceChannel.parent (channel : UserVoiceChannel) : String := channel.serverId.getD channel.id

/-- `{user}:{parent}`. -/
structure UniqueKey where
  user : String
  parent : String
  deriving DecidableEq

/-- The key of a user in a channel. -/
def uniqueKey (channel : UserVoiceChannel) (user : String) : UniqueKey := ⟨user, channel.parent⟩

/-- A participant's identity: the user id, followed by a device or alone. -/
structure Identity where
  user : String
  device : Option String
  deriving DecidableEq

inductive Flag where
  | isPublishing
  | isReceiving
  | screensharing
  | camera
  | screenVideo
  | recording
  | rcCapable
  | watching
  deriving DecidableEq

inductive StateKey where
  | joinedAt
  | flag (flag : Flag)
  deriving DecidableEq

def voiceStateKeyPrefixes : List StateKey :=
  [.joinedAt, .flag .isPublishing, .flag .isReceiving, .flag .screensharing, .flag .camera,
    .flag .screenVideo, .flag .recording, .flag .rcCapable, .flag .watching]

structure UserVoiceState where
  joinedAt : Timestamp
  id : String
  isReceiving : Bool
  isPublishing : Bool
  screensharing : Bool
  camera : Bool
  screenVideo : Bool
  recording : Bool
  rcCapable : Bool
  watching : Bool

/-- A set or a hash of several channels is one list or table, by the channel and the member. -/
structure Store where
  /-- The key itself, `{user}:{parent}`: the channel its flags are about. -/
  pointers : Table UniqueKey String
  /-- In milliseconds. -/
  joinedAt : Table UniqueKey Int
  flags : Table (Flag × UniqueKey) Bool
  /-- `vc_members:{channel}`. -/
  vcMembers : List (String × String)
  /-- `vc:{user}`. -/
  vc : List (String × UserVoiceChannel)
  /-- The users of `vc_leg:{channel}`. -/
  vcLeg : List (String × String)
  /-- `voice_identity:{channel}`, by user. -/
  voiceIdentity : Table (String × String) Identity
  /-- The `annotations_allow:{channel}:{user}` that are there. -/
  annotationsAllow : List (String × String)
  /-- `vc_conns:{channel}`, by sid. -/
  vcConns : Table (String × String) Identity
  /-- The `afk_since` keys that are there. -/
  afkSince : List UniqueKey

namespace Store

def empty : Store := ⟨∅, ∅, ∅, [], [], [], ∅, [], ∅, []⟩

/-- Whether a key of a user's state is there. -/
def hasState (s : Store) (key : UniqueKey) : StateKey → Bool
  | .joinedAt => (s.joinedAt.get key).isSome
  | .flag flag => (s.flags.get (flag, key)).isSome

/-! ## Reading -/

def getUserVoiceChannels (s : Store) (user : String) : List UserVoiceChannel :=
  (s.vc.filter fun entry => entry.1 = user).map Prod.snd

variable {channel : UserVoiceChannel}

theorem mem_getUserVoiceChannels {s : Store} {user : String} :
    channel ∈ s.getUserVoiceChannels user ↔ (user, channel) ∈ s.vc := by
  simp only [getUserVoiceChannels, mem_map, mem_filter, decide_eq_true_eq]
  constructor
  · rintro ⟨⟨user', channel'⟩, ⟨hmem, rfl⟩, rfl⟩
    exact hmem
  · exact fun hmem => ⟨_, ⟨hmem, rfl⟩, rfl⟩

/-- `None` for an empty set. -/
def getVoiceChannelMembers (s : Store) (channel : UserVoiceChannel) : Option (List String) :=
  match (s.vcMembers.filter fun entry => entry.1 = channel.id).map Prod.snd with
  | [] => none
  | members => some members

/-- A state from before one of the last four keys existed reads as without that flag; one that
lacks any of the others is no state. -/
def getVoiceState (s : Store) (channel : UserVoiceChannel) (user : String) :
    Option UserVoiceState := do
  let key := uniqueKey channel user
  let joinedAt ← s.joinedAt.get key
  let isPublishing ← s.flags.get (.isPublishing, key)
  let isReceiving ← s.flags.get (.isReceiving, key)
  let screensharing ← s.flags.get (.screensharing, key)
  let camera ← s.flags.get (.camera, key)
  return {
    joinedAt := joinedAt * 1000000
    id := user
    isReceiving
    isPublishing
    screensharing
    camera
    screenVideo := (s.flags.get (.screenVideo, key)).getD false
    recording := (s.flags.get (.recording, key)).getD false
    rcCapable := (s.flags.get (.rcCapable, key)).getD false
    watching := (s.flags.get (.watching, key)).getD false }

/-- The keys without which there is no state. -/
def requiredKeys : List StateKey :=
  [.joinedAt, .flag .isPublishing, .flag .isReceiving, .flag .screensharing, .flag .camera]

theorem getVoiceState_isSome {s : Store} {user : String} : (s.getVoiceState channel user).isSome ↔
      ∀ key ∈ requiredKeys, s.hasState (uniqueKey channel user) key = true := by
  simp only [getVoiceState, requiredKeys, List.forall_mem_cons, hasState,
    isSome_iff_exists, Option.bind_eq_bind, bind_eq_some_iff, Option.pure_def]
  constructor
  · rintro ⟨_, joinedAt, hj, publishing, hp, receiving, hr, screensharing, hs, camera, hc, -⟩
    exact ⟨⟨_, hj⟩, ⟨_, hp⟩, ⟨_, hr⟩, ⟨_, hs⟩, ⟨_, hc⟩, List.forall_mem_nil _⟩
  · rintro ⟨⟨joinedAt, hj⟩, ⟨publishing, hp⟩, ⟨receiving, hr⟩, ⟨screensharing, hs⟩, ⟨camera, hc⟩, -⟩
    exact ⟨_, joinedAt, hj, publishing, hp, receiving, hr, screensharing, hs, camera, hc, rfl⟩

def recordedVoiceConnections (s : Store) (channel : UserVoiceChannel) (user : String) :
    List (String × Identity) :=
  (s.vcConns.entries.filter fun entry => entry.1.1 = channel.id ∧ entry.2.user = user).map
    fun entry => (entry.1.2, entry.2)

theorem mem_recordedVoiceConnections {s : Store} {user sid : String} {identity : Identity} :
    (sid, identity) ∈ s.recordedVoiceConnections channel user ↔
      s.vcConns.get (channel.id, sid) = some identity ∧ identity.user = user := by
  simp only [recordedVoiceConnections, mem_map, mem_filter, decide_eq_true_eq,
    Prod.mk.injEq, get_eq_some_iff]
  constructor
  · rintro ⟨⟨⟨id, sid'⟩, identity'⟩, ⟨hmem, rfl, huse⟩, rfl, rfl⟩
    exact ⟨hmem, huse⟩
  · rintro ⟨hmem, huse⟩
    exact ⟨⟨(channel.id, sid), identity⟩, ⟨hmem, rfl, huse⟩, rfl, rfl⟩

end Store

/-! ## A join -/

/-- The commands of the pipeline. -/
inductive Write where
  | setPointer (key : UniqueKey) (channel : String)
  | setJoinedAt (key : UniqueKey) (millis : Int)
  | setFlag (flag : Flag) (key : UniqueKey) (value : Bool)
  | delAnnotationsAllow (channel user : String)
  | delAfkSince (key : UniqueKey)
  | saddMembers (channel user : String)
  | saddVc (user : String) (channel : UserVoiceChannel)
  deriving DecidableEq

def Store.write (s : Store) : Write → Store
  | .setPointer key channel => { s with pointers := s.pointers.insert key channel }
  | .setJoinedAt key millis => { s with joinedAt := s.joinedAt.insert key millis }
  | .setFlag flag key value => { s with flags := s.flags.insert (flag, key) value }
  | .delAnnotationsAllow channel user =>
    { s with annotationsAllow := s.annotationsAllow.filter fun entry => entry ≠ (channel, user) }
  | .delAfkSince key => { s with afkSince := s.afkSince.filter fun entry => entry ≠ key }
  | .saddMembers channel user => { s with vcMembers := s.vcMembers.insert (channel, user) }
  | .saddVc user channel => { s with vc := s.vc.insert (user, channel) }

/-- `joined_at` in whole milliseconds. -/
def millis (joinedAt : Timestamp) : Int := joinedAt.tdiv 1000000

/-- The state of somebody who has just joined. -/
def UserVoiceState.fresh (user : String) (joinedAt : Timestamp) : UserVoiceState where
  joinedAt
  id := user
  isReceiving := true
  isPublishing := false
  screensharing := false
  camera := false
  screenVideo := false
  recording := false
  rcCapable := false
  watching := false

/-- `create_voice_state`: its pipeline, the two rosters last. -/
def createVoiceState (channel : UserVoiceChannel) (user : String) (joinedAt : Timestamp) :
    List Write :=
  let key := uniqueKey channel user
  let voiceState := UserVoiceState.fresh user joinedAt
  [.setPointer key channel.id, .setJoinedAt key (millis joinedAt),
    .setFlag .isPublishing key voiceState.isPublishing,
    .setFlag .isReceiving key voiceState.isReceiving,
    .setFlag .screensharing key voiceState.screensharing,
    .setFlag .camera key voiceState.camera,
    .setFlag .screenVideo key voiceState.screenVideo,
    .setFlag .recording key voiceState.recording,
    .setFlag .rcCapable key voiceState.rcCapable,
    .setFlag .watching key voiceState.watching,
    .delAnnotationsAllow channel.id user,
    .delAfkSince key,
    .saddMembers channel.id user,
    .saddVc user channel]

/-- The whole pipeline with nobody in between. -/
def Store.create (s : Store) (channel : UserVoiceChannel) (user : String) (joinedAt : Timestamp) :
    Store :=
  (createVoiceState channel user joinedAt).foldl Store.write s

/-! ## A connection -/

/-- `RECORD_VOICE_CONNECTION_LUA`: whether the user had no voice state in the channel. -/
def Store.recordVoiceConnection (s : Store) (channel : UserVoiceChannel) (user sid : String)
    (identity : Identity) : Store × Bool :=
  ({ s with vcConns := s.vcConns.insert (channel.id, sid) identity },
    !decide ((channel.id, user) ∈ s.vcMembers))

def holdsVoiceStateIn (redis : Store) (channel : UserVoiceChannel) (user : String) : Bool :=
  (channel.id, user) ∈ redis.vcMembers || (user, channel) ∈ redis.vc ||
    redis.pointers.get (uniqueKey channel user) = some channel.id

def Store.setVoiceParticipantIdentity (s : Store) (channel user : String) (identity : Identity) :
    Store :=
  { s with voiceIdentity := s.voiceIdentity.insert (channel, user) identity }

/-! ## A leave -/

/-- What happens to the connection record before the teardown. -/
inductive TeardownMode where
  /-- All entries of the user go. -/
  | user
  /-- The departing one goes. -/
  | connection (sid : String)
  /-- Those given go that are the user's. -/
  | connections (sids : List String)

/-- The answers of the script: the state of the server was kept or deleted, or a sibling connection
survives and nothing was torn down. -/
inductive TeardownCode where
  | kept
  | deleted
  | survivor

/-- `connections` mode counts the sids it has skipped. -/
structure Teardown where
  code : TeardownCode
  foreign : Nat
  unknown : Nat

inductive TeardownError where
  | foreignConnection

namespace Store

/-- The keys of a channel always go. Those of the server stay where the pointer names another
channel. -/
def tearDown (s : Store) (channel : UserVoiceChannel) (user : String) : Store × TeardownCode :=
  let key := uniqueKey channel user
  let s := { s with
    vcMembers := s.vcMembers.filter fun entry => entry ≠ (channel.id, user)
    vc := s.vc.filter fun entry => entry ≠ (user, channel)
    vcLeg := s.vcLeg.filter fun entry => entry ≠ (channel.id, user)
    voiceIdentity := s.voiceIdentity.erase (channel.id, user)
    annotationsAllow := s.annotationsAllow.filter fun entry => entry ≠ (channel.id, user) }
  if (s.pointers.get key).any fun pointer => pointer ≠ channel.id then (s, .kept)
  else
    ({ s with
      pointers := s.pointers.erase key
      joinedAt := s.joinedAt.erase key
      flags := s.flags.retain fun entry _ => entry.2 ≠ key }, .deleted)

/-- One of the sids of `connections` mode. -/
def dropConnection (user : String) (channel : UserVoiceChannel) (s : Store × Nat × Nat)
    (sid : String) : Store × Nat × Nat :=
  match s.1.vcConns.get (channel.id, sid) with
  | none => (s.1, s.2.1, s.2.2 + 1)
  | some identity =>
    if identity.user = user then
      ({ s.1 with vcConns := s.1.vcConns.erase (channel.id, sid) }, s.2)
    else (s.1, s.2.1 + 1, s.2.2)

/-- The survivor scan: the mapping goes to a connection that is left, or the teardown runs. -/
def tearDownLast (s : Store) (channel : UserVoiceChannel) (user : String) : Store × TeardownCode :=
  match s.recordedVoiceConnections channel user with
  | (_, identity) :: _ => (s.setVoiceParticipantIdentity channel.id user identity, .survivor)
  | [] => s.tearDown channel user

def deleteVoiceState (s : Store) (channel : UserVoiceChannel) (user : String) :
    TeardownMode → Store × Except TeardownError Teardown
  | .user =>
    let s := { s with
      vcConns := s.vcConns.retain fun entry identity =>
        ¬ (entry.1 = channel.id ∧ identity.user = user) }
    let (s, code) := s.tearDown channel user
    (s, .ok ⟨code, 0, 0⟩)
  | .connection sid =>
    match s.vcConns.get (channel.id, sid) with
    | some identity =>
      if identity.user = user then
        let s := { s with vcConns := s.vcConns.erase (channel.id, sid) }
        let (s, code) := s.tearDownLast channel user
        (s, .ok ⟨code, 0, 0⟩)
      else (s, .error .foreignConnection)
    | none =>
      let (s, code) := s.tearDownLast channel user
      (s, .ok ⟨code, 0, 0⟩)
  | .connections sids =>
    let (s, foreign, unknown) := sids.foldl (dropConnection user channel) (s, 0, 0)
    let (s, code) := s.tearDownLast channel user
    (s, .ok ⟨code, foreign, unknown⟩)

/-! ## What a teardown does -/

/-- The record without these connections of the user. -/
def forget (s : Store) (channel : UserVoiceChannel) (user : String) (sids : List String) : Store :=
  (sids.foldl (dropConnection user channel) (s, 0, 0)).1

theorem foldl_dropConnection (channel : UserVoiceChannel) (user : String) (sids : List String)
    (s : Store) (foreign unknown : Nat) : ∃ conns,
      (sids.foldl (dropConnection user channel) (s, foreign, unknown)).1 =
        { s with vcConns := conns } ∧
      ∀ id sid identity, conns.get (id, sid) = some identity ↔
        s.vcConns.get (id, sid) = some identity ∧
          ¬ (id = channel.id ∧ sid ∈ sids ∧ identity.user = user) := by
  induction sids generalizing s foreign unknown with
  | nil => exact ⟨s.vcConns, rfl, by simp⟩
  | cons sid sids ih =>
    have hsp : ∃ conns n m, dropConnection user channel (s, foreign, unknown) sid =
        ({ s with vcConns := conns }, n, m) ∧
          ∀ id sid' identity, conns.get (id, sid') = some identity ↔
            s.vcConns.get (id, sid') = some identity ∧
              ¬ (id = channel.id ∧ sid' = sid ∧ identity.user = user) := by
      simp only [dropConnection]
      cases hg : s.vcConns.get (channel.id, sid) with
      | none =>
        refine ⟨s.vcConns, _, _, rfl, fun id sid' identity => ⟨fun h => ⟨h, ?_⟩, And.left⟩⟩
        rintro ⟨rfl, rfl, -⟩
        rw [hg] at h
        cases h
      | some found =>
        by_cases huse : found.user = user
        · refine ⟨s.vcConns.erase (channel.id, sid), foreign, unknown, by simp [huse],
            fun id sid' identity => ?_⟩
          rw [get_erase]
          split_ifs with hkey
          · cases hkey
            rw [hg]
            refine ⟨nofun, ?_⟩
            rintro ⟨heq, hnot⟩
            cases heq
            exact absurd ⟨rfl, rfl, huse⟩ hnot
          · refine ⟨fun h => ⟨h, ?_⟩, And.left⟩
            rintro ⟨rfl, rfl, -⟩
            exact hkey rfl
        · refine ⟨s.vcConns, foreign + 1, unknown, by simp [huse], fun id sid' identity =>
            ⟨fun h => ⟨h, ?_⟩, And.left⟩⟩
          rintro ⟨rfl, rfl, hown⟩
          rw [hg] at h
          cases h
          exact huse hown
    obtain ⟨conns, n, m, hnx, hcon⟩ := hsp
    obtain ⟨conns', hrs, hcon'⟩ := ih { s with vcConns := conns } n m
    refine ⟨conns', by rw [foldl_cons, hnx, hrs], fun id sid' identity => ?_⟩
    rw [hcon', hcon, mem_cons]
    tauto

section

variable (s : Store) (channel : UserVoiceChannel) (user : String) (sids : List String)

theorem forget_eq : ∃ conns, s.forget channel user sids = { s with vcConns := conns } ∧
      ∀ id sid identity, conns.get (id, sid) = some identity ↔
        s.vcConns.get (id, sid) = some identity ∧
          ¬ (id = channel.id ∧ sid ∈ sids ∧ identity.user = user) :=
  foldl_dropConnection channel user sids s 0 0

theorem deleteVoiceState_connections : (s.deleteVoiceState channel user (.connections sids)).1 =
      ((s.forget channel user sids).tearDownLast channel user).1 := rfl

end

variable {channel : UserVoiceChannel}

/-- The departing connection is recorded as the user's, if at all. -/
theorem deleteVoiceState_connection {s : Store} {user sid : String}
    (hown : ∀ identity, s.vcConns.get (channel.id, sid) = some identity → identity.user = user) :
    s.deleteVoiceState channel user (.connection sid) =
      (((s.forget channel user [sid]).tearDownLast channel user).1,
        .ok ⟨((s.forget channel user [sid]).tearDownLast channel user).2, 0, 0⟩) := by
  unfold deleteVoiceState forget
  simp only [foldl_cons, List.foldl_nil, dropConnection]
  cases hg : s.vcConns.get (channel.id, sid) with
  | none => rfl
  | some identity => simp only [hown identity hg, if_true]

theorem tearDownLast_cases (s : Store) (channel : UserVoiceChannel) (user : String) :
    (∃ sid identity, s.vcConns.get (channel.id, sid) = some identity ∧ identity.user = user ∧
      s.tearDownLast channel user =
        (s.setVoiceParticipantIdentity channel.id user identity, .survivor)) ∨
      (∀ sid identity, s.vcConns.get (channel.id, sid) = some identity → identity.user ≠ user) ∧
        s.tearDownLast channel user = s.tearDown channel user := by
  unfold tearDownLast
  cases hrec : s.recordedVoiceConnections channel user with
  | cons entry rest =>
    obtain ⟨hg, huse⟩ := mem_recordedVoiceConnections.mp
      (hrec ▸ mem_cons_self : entry ∈ s.recordedVoiceConnections channel user)
    exact .inl ⟨entry.1, entry.2, hg, huse, rfl⟩
  | nil =>
    refine .inr ⟨fun sid identity hg huse => ?_, rfl⟩
    have hmem := mem_recordedVoiceConnections.mpr ⟨hg, huse⟩
    rw [hrec] at hmem
    cases hmem

section TearDown

variable (s : Store) (channel : UserVoiceChannel) (user : String)

@[simp] theorem tearDown_vcConns : (s.tearDown channel user).1.vcConns = s.vcConns := by
  unfold tearDown
  dsimp only
  split_ifs <;> rfl

@[simp] theorem tearDown_vcMembers : (s.tearDown channel user).1.vcMembers =
    s.vcMembers.filter fun entry => entry ≠ (channel.id, user) := by
  unfold tearDown
  dsimp only
  split_ifs <;> rfl

@[simp] theorem tearDown_vc : (s.tearDown channel user).1.vc =
    s.vc.filter fun entry => entry ≠ (user, channel) := by
  unfold tearDown
  dsimp only
  split_ifs <;> rfl

@[simp] theorem tearDown_voiceIdentity : (s.tearDown channel user).1.voiceIdentity =
    s.voiceIdentity.erase (channel.id, user) := by
  unfold tearDown
  dsimp only
  split_ifs <;> rfl

variable {s channel user}

theorem tearDown_kept {other : String}
    (hptr : s.pointers.get (uniqueKey channel user) = some other) (hoth : other ≠ channel.id) :
    (s.tearDown channel user).1.pointers = s.pointers ∧
      (s.tearDown channel user).1.joinedAt = s.joinedAt ∧
        (s.tearDown channel user).1.flags = s.flags := by
  unfold tearDown
  rw [if_pos (by simp [hptr, hoth])]
  exact ⟨rfl, rfl, rfl⟩

theorem tearDown_deleted (hptr : ∀ other,
      s.pointers.get (uniqueKey channel user) = some other → other = channel.id) :
    (s.tearDown channel user).1.pointers = s.pointers.erase (uniqueKey channel user) ∧
      ∀ field, (s.tearDown channel user).1.hasState (uniqueKey channel user) field = false := by
  have hany : ¬ (s.pointers.get (uniqueKey channel user)).any fun pointer => pointer ≠ channel.id := by
    simpa [Option.any_eq_true] using hptr
  unfold tearDown
  rw [if_neg hany]
  refine ⟨rfl, fun field => ?_⟩
  cases field with
  | joinedAt =>
    show (Option.isSome ((s.joinedAt.erase _).get _)) = false
    rw [get_erase, if_pos rfl]
    rfl
  | flag flag =>
    show (Option.isSome ((s.flags.retain _).get _)) = false
    rw [get_retain, Option.isSome_eq_false_iff, isNone_iff_eq_none,
      Option.filter_eq_none_iff]
    simp

theorem tearDown_other (s : Store) (channel : UserVoiceChannel) {user other : String}
    (hoth : other ≠ user) : (s.tearDown channel other).1.pointers.get (uniqueKey channel user) =
        s.pointers.get (uniqueKey channel user) ∧
      ∀ field, (s.tearDown channel other).1.hasState (uniqueKey channel user) field =
        s.hasState (uniqueKey channel user) field := by
  have hkey : uniqueKey channel user ≠ uniqueKey channel other :=
    fun h => hoth (congrArg UniqueKey.user h).symm
  unfold tearDown
  dsimp only
  split_ifs
  · exact ⟨rfl, fun field => by cases field <;> rfl⟩
  · refine ⟨by rw [get_erase, if_neg hkey], fun field => ?_⟩
    cases field with
    | joinedAt =>
      show Option.isSome ((s.joinedAt.erase _).get _) = Option.isSome (s.joinedAt.get _)
      rw [get_erase, if_neg hkey]
    | flag flag =>
      show Option.isSome ((s.flags.retain _).get _) = Option.isSome (s.flags.get _)
      rw [get_retain]
      cases s.flags.get (flag, uniqueKey channel user) with
      | none => rfl
      | some value => simp [hkey]

end TearDown

/-- Nothing of the user is left in the channel. -/
structure Gone (s : Store) (channel : UserVoiceChannel) (user : String) : Prop where
  vcMembers : (channel.id, user) ∉ s.vcMembers
  vc : (user, channel) ∉ s.vc
  voiceIdentity : s.voiceIdentity.get (channel.id, user) = none
  pointer : s.pointers.get (uniqueKey channel user) = none
  state : ∀ field, s.hasState (uniqueKey channel user) field = false

theorem gone_tearDown {s : Store} {user : String} (hptr : ∀ other,
      s.pointers.get (uniqueKey channel user) = some other → other = channel.id) :
    (s.tearDown channel user).1.Gone channel user := by
  obtain ⟨hpoin, hsta⟩ := tearDown_deleted hptr
  refine ⟨by simp, by simp, ?_, ?_, hsta⟩
  · rw [tearDown_voiceIdentity, get_erase, if_pos rfl]
  · rw [hpoin, get_erase, if_pos rfl]

/-- **Some of a user's connections go.** If one is left, the mapping names one that is left; or
nothing of the user is. -/
theorem tearDownLast_forget {s : Store} {user : String}
    (hown : ∀ sid identity, s.vcConns.get (channel.id, sid) = some identity → identity.user = user)
    (hptr : ∀ other, s.pointers.get (uniqueKey channel user) = some other → other = channel.id)
    {sids : List String} {r : Store}
    (hr : r = ((s.forget channel user sids).tearDownLast channel user).1) :
    (∀ sid identity, r.vcConns.get (channel.id, sid) = some identity ↔
      s.vcConns.get (channel.id, sid) = some identity ∧ sid ∉ sids) ∧
      ((∃ sid identity, r.vcConns.get (channel.id, sid) = some identity ∧
        r = { s with vcConns := r.vcConns }.setVoiceParticipantIdentity channel.id user identity) ∨
        (∀ sid, r.vcConns.get (channel.id, sid) = none) ∧ r.Gone channel user) := by
  obtain ⟨conns, hfor, hcon⟩ := s.forget_eq channel user sids
  have hlf : ∀ sid identity, conns.get (channel.id, sid) = some identity ↔
      s.vcConns.get (channel.id, sid) = some identity ∧ sid ∉ sids := by
    intro sid identity
    rw [hcon]
    refine and_congr_right fun hg => ?_
    simp [hown sid identity hg]
  rw [hfor] at hr
  obtain ⟨sid, identity, hg, huse, heq⟩ | ⟨hno, heq⟩ :=
    tearDownLast_cases { s with vcConns := conns } channel user
  · rw [heq] at hr
    subst hr
    exact ⟨hlf, .inl ⟨sid, identity, hg, rfl⟩⟩
  · rw [heq] at hr
    subst hr
    rw [tearDown_vcConns]
    refine ⟨hlf, .inr ⟨fun sid => ?_, gone_tearDown hptr⟩⟩
    refine Option.eq_none_iff_forall_not_mem.mpr fun identity hg => ?_
    exact hno sid identity hg (hown sid identity ((hlf sid identity).mp hg).1)

end Store

/-! ## What a join does -/

namespace Store

section Create

variable (s : Store) (channel : UserVoiceChannel) (user : String) (joinedAt : Timestamp)

@[simp] theorem create_vcMembers : (s.create channel user joinedAt).vcMembers =
    s.vcMembers.insert (channel.id, user) := rfl

@[simp] theorem create_pointers : (s.create channel user joinedAt).pointers =
    s.pointers.insert (uniqueKey channel user) channel.id := rfl

variable {key : UniqueKey} {write : Write} {field : StateKey}

theorem hasState_write {s : Store} (write : Write) (hhas : s.hasState key field = true)
    : (s.write write).hasState key field = true := by
  cases write with
  | setJoinedAt key' millis =>
    cases field with
    | flag flag => exact hhas
    | joinedAt =>
      show (Option.isSome ((s.joinedAt.insert key' millis).get key)) = true
      rw [get_insert]
      split_ifs
      · rfl
      · exact hhas
  | setFlag flag' key' value =>
    cases field with
    | joinedAt => exact hhas
    | flag flag =>
      show (Option.isSome ((s.flags.insert (flag', key') value).get (flag, key))) = true
      rw [get_insert]
      split_ifs
      · rfl
      · exact hhas
  | _ => exact hhas

@[simp] theorem write_vcConns (s : Store) (write : Write) : (s.write write).vcConns = s.vcConns := by
  cases write <;> rfl

theorem mem_write_vcMembers {s : Store} {entry : String × String} (hmem : entry ∈ s.vcMembers)
    : entry ∈ (s.write write).vcMembers := by
  cases write with
  | saddMembers channel user => exact List.mem_insert_of_mem hmem
  | _ => exact hmem

theorem mem_write_vcMembers_cases {s : Store} {channel user : String}
    (hmem : (channel, user) ∈ (s.write write).vcMembers) :
    write = .saddMembers channel user ∨ (channel, user) ∈ s.vcMembers := by
  cases write with
  | saddMembers channel' user' =>
    rcases List.mem_insert_iff.mp hmem with heq | hold
    · cases heq
      exact .inl rfl
    · exact .inr hold
  | _ => exact .inr hmem

theorem get_write_pointers {s : Store} {channel : String}
    (hg : (s.write write).pointers.get key = some channel) :
    write = .setPointer key channel ∨ s.pointers.get key = some channel := by
  cases write with
  | setPointer key' channel' =>
    rw [Store.write, get_insert] at hg
    split_ifs at hg with hkey
    · obtain rfl := hkey
      cases hg
      exact .inl rfl
    · exact .inr hg
  | _ => exact .inr hg

theorem hasState_foldl_write (writes : List Write) : ∀ {s : Store}, s.hasState key field = true →
      (writes.foldl Store.write s).hasState key field = true := by
  induction writes with
  | nil => exact fun h => h
  | cons write writes ih => exact fun h => ih (hasState_write write h)

end Create

end Store

/-- The command sets this key. -/
def Write.sets (write : Write) (key : UniqueKey) (field : StateKey) : Bool :=
  match write, field with
  | .setJoinedAt key' _, .joinedAt => key' = key
  | .setFlag flag' key' _, .flag flag => key' = key && flag' = flag
  | _, _ => false

variable {field : StateKey}

theorem Store.hasState_of_sets (s : Store) {write : Write} {key : UniqueKey}
    (hst : write.sets key field = true) : (s.write write).hasState key field = true := by
  cases write with
  | setJoinedAt key' millis =>
    cases field with
    | flag flag => cases hst
    | joinedAt =>
      obtain rfl : key' = key := of_decide_eq_true hst
      show (Option.isSome ((s.joinedAt.insert key' millis).get key')) = true
      rw [get_insert_self]
      rfl
  | setFlag flag' key' value =>
    cases field with
    | joinedAt => cases hst
    | flag flag =>
      simp only [Write.sets, and_eq_true, decide_eq_true_eq] at hst
      obtain ⟨rfl, rfl⟩ := hst
      show (Option.isSome ((s.flags.insert (flag', key') value).get (flag', key'))) = true
      rw [get_insert_self]
      rfl
  | _ => cases field <;> cases hst

theorem Store.hasState_foldl_of_sets {writes : List Write} {write : Write} {key : UniqueKey}
    (hmem : write ∈ writes) (hst : write.sets key field = true) :
    ∀ s : Store, (writes.foldl Store.write s).hasState key field = true := by
  induction writes with
  | nil => cases hmem
  | cons write' writes ih =>
    intro s
    rcases mem_cons.mp hmem with rfl | hrs
    · exact hasState_foldl_write writes (s.hasState_of_sets hst)
    · exact ih hrs (s.write write')

/-- **All nine keys are set**, and before the rosters. -/
theorem exists_sets (channel : UserVoiceChannel) (user : String) (joinedAt : Timestamp)
    (field : StateKey) : ∃ write ∈ (createVoiceState channel user joinedAt).take 10,
      write.sets (uniqueKey channel user) field = true := by
  refine any_eq_true.mp ?_
  obtain _ | flag := field
  · simp [createVoiceState, Write.sets]
  · cases flag <;> simp [createVoiceState, Write.sets]

theorem Store.create_hasState (s : Store) (channel : UserVoiceChannel) (user : String)
    (joinedAt : Timestamp) (field : StateKey) :
    (s.create channel user joinedAt).hasState (uniqueKey channel user) field = true := by
  obtain ⟨write, hmem, hst⟩ := exists_sets channel user joinedAt field
  exact hasState_foldl_of_sets (List.mem_of_mem_take hmem) hst s

end SlogaBackend.Voice
