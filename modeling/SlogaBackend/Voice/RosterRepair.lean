import SlogaBackend.Voice.Handlers

/-!
# The repair of a roster

Who reads the roster of a channel tears down, whole-user, a member whose state it cannot read.
`create_voice_state` writes the roster last for that: a reader that sees the membership also sees
the keys. It sees them when it reads the membership. A leave and another join may come before it
reads the state, and more of the join before it tears down, with no look at who is there by then.

A teardown that comes to a join halfway is the other danger: the keys that were written are gone,
and the roster is still written at the end. Where neither happens (`Undisturbed`), whoever has
joined and not left is a member with a state and a recorded connection.
-/

namespace SlogaBackend.Voice

/-- The handler of the join has written some of the keys, and not the roster yet. -/
def Connection.halfway (conn : Connection) : Bool :=
  match conn.join with
  | .writing left =>
    decide (.saddMembers conn.channel.id conn.user ∈ left) &&
      decide (left ≠ createVoiceState conn.channel conn.user conn.joinedAt)
  | _ => false

namespace RosterRepair

/-- One user and one channel, and nobody is removed from it. -/
def OneRoom (channel : UserVoiceChannel) (user : String) : Action → Prop
  | .connect _ channel' identity _ => channel' = channel ∧ identity.user = user
  | .startReader _ channel' => channel' = channel
  | .startRemoval .. => False
  | _ => True

/-- Nobody is halfway. -/
def Settled (s : State) : Prop := ∀ conn ∈ s.connections.values, conn.halfway = false

/-- After these are gone from the record, a connection of the user is left. -/
def Survives (s : State) (channel : UserVoiceChannel) (user : String) (sids : List String) : Prop :=
  ∃ entry ∈ s.redis.recordedVoiceConnections channel user, entry.1 ∉ sids

/-- A repair that comes now comes where nobody is halfway, and no live connection of the user is
recorded. -/
def RepairsNobody (s : State) (reader : Reader) : Prop :=
  match reader.phase with
  | .repair user _ => Settled s ∧ ∀ entry ∈ s.redis.recordedVoiceConnections reader.channel user,
      ∀ conn ∈ s.connections.get entry.1, conn.live = false
  | _ => True

/-- A teardown that comes now comes where nobody is halfway. -/
def TearsDownNobody (s : State) (sid : String) (conn : Connection) : Prop :=
  match conn.leave with
  | .script => Survives s conn.channel conn.user [sid] ∨ Settled s
  | .dropStale stale => Survives s conn.channel conn.user stale ∨ Settled s
  | _ => True

def Undisturbed (s : State) : Action → Prop
  | .reader n => ∀ reader ∈ s.readers.get n, RepairsNobody s reader
  | .left sid => ∀ conn ∈ s.connections.get sid, TearsDownNobody s sid conn
  | _ => True

/-- What is so of a connection. -/
structure Fits (channel : UserVoiceChannel) (user : String) (s : State) (sid : String)
    (conn : Connection) : Prop extends Steady channel user s sid conn where
  /-- The user is a member, or the handler will make it one. -/
  present : conn.live = true → conn.join ≠ .waiting → (channel.id, user) ∈ s.redis.vcMembers ∨
    conn.join = .setIdentity true ∨ conn.join = .create ∨
      ∃ left, conn.join = .writing left ∧ .saddMembers channel.id user ∈ left
  /-- What the handler has written is there until the roster is written too. -/
  written : ∀ left, conn.join = .writing left →
    ∃ before, createVoiceState channel user conn.joinedAt = before ++ left ∧
      (.saddMembers channel.id user ∈ left → ∀ write ∈ before, ∀ field,
        write.sets (uniqueKey channel user) field = true →
          s.redis.hasState (uniqueKey channel user) field = true)

/-- **What is so of Redis and those who work on it.** -/
structure Sound (channel : UserVoiceChannel) (user : String) (s : State) : Prop where
  fits : ∀ sid conn, s.connections.get sid = some conn → Fits channel user s sid conn
  removals : ∀ n, s.removals.get n = none
  readers : ∀ n reader, s.readers.get n = some reader → reader.channel = channel
  known : ∀ sid identity, s.redis.vcConns.get (channel.id, sid) = some identity →
    ∃ conn, s.connections.get sid = some conn ∧ conn.identity = identity
  whole : (channel.id, user) ∈ s.redis.vcMembers →
    ∀ field, s.redis.hasState (uniqueKey channel user) field = true
  pointer : ∀ other, s.redis.pointers.get (uniqueKey channel user) = some other → other = channel.id

variable {channel : UserVoiceChannel} {user : String} {s : State}

/-- What the others have of Redis is not lost. -/
structure Keeps (channel : UserVoiceChannel) (user : String) (s : State) (r : Store) : Prop where
  live : ∀ sid conn, s.connections.get sid = some conn → conn.live = true →
    s.redis.vcConns.get (channel.id, sid) = some conn.identity →
      r.vcConns.get (channel.id, sid) = some conn.identity ∧
        ((channel.id, user) ∈ s.redis.vcMembers → (channel.id, user) ∈ r.vcMembers)
  halfway : ∀ field, s.redis.hasState (uniqueKey channel user) field = true →
    r.hasState (uniqueKey channel user) field = true ∨ Settled s

theorem Keeps.refl : Keeps channel user s s.redis :=
  ⟨fun _ _ _ _ hget => ⟨hget, id⟩, fun _ h => .inl h⟩

theorem Fits.halfway_of_written {sid : String} {conn : Connection}
    (hft : Fits channel user s sid conn) {left before : List Write}
    (hjn : conn.join = .writing left) (hlf : .saddMembers channel.id user ∈ left)
    (hspl : createVoiceState channel user conn.joinedAt = before ++ left) (hbef : before ≠ []) :
    conn.halfway = true := by
  obtain rfl := hft.here
  obtain rfl := hft.owner
  rw [Connection.halfway, hjn, hspl]
  simp [hlf, hbef]

variable {s' : State}

theorem Fits.still {sid : String} {conn : Connection}
    (hft : Fits channel user s sid conn) (hget : s.connections.get sid = some conn)
    (hkp : Keeps channel user s s'.redis) (hgrow : s.Grows s') :
    Fits channel user s' sid conn where
  toSteady := hft.toSteady.still (fun hlv h => (hkp.live sid conn hget hlv h).1) hgrow
  present hlv hstd := (hft.present hlv hstd).imp_left
    (hkp.live sid conn hget hlv (hft.recorded hlv hstd)).2
  written left hjn := by
    obtain ⟨before, hspl, hwr⟩ := hft.written left hjn
    refine ⟨before, hspl, fun hlf write hw field hse => ?_⟩
    refine (hkp.halfway field (hwr hlf write hw field hse)).resolve_right ?_
    intro hsett
    have hnot := hsett conn (mem_values_of_get hget)
    rw [hft.halfway_of_written hjn hlf hspl (ne_nil_of_mem hw)] at hnot
    cases hnot

section Put

variable {sid : String} {conn conn' : Connection} {r : Store}

theorem Fits.still_put (hft : Fits channel user s sid conn)
    (hget : s.connections.get sid = some conn) (hlv : conn.live = false → conn'.live = false) :
    Fits channel user (s.put sid conn') sid conn :=
  hft.still hget Keeps.refl (State.grows_put hget hlv)

section

variable (hsound : Sound channel user s)
include hsound

/-- **The rule for a step of a handler.** -/
theorem Sound.put (hget : s.connections.get sid = some conn)
    (hkp : Keeps channel user s r) (hlv : conn.live = false → conn'.live = false)
    (hide : conn'.identity = conn.identity)
    (hft : Fits channel user ((s.withRedis r).put sid conn') sid conn')
    (hkn : ∀ sid' identity, r.vcConns.get (channel.id, sid') = some identity →
      sid' = sid ∧ identity = conn.identity ∨
        s.redis.vcConns.get (channel.id, sid') = some identity)
    (hwhol : (channel.id, user) ∈ r.vcMembers →
      ∀ field, r.hasState (uniqueKey channel user) field = true)
    (hptr : ∀ other, r.pointers.get (uniqueKey channel user) = some other → other = channel.id) :
    Sound channel user ((s.withRedis r).put sid conn') := by
  refine ⟨fun sid' other hoth => ?_, hsound.removals, hsound.readers,
    fun sid' identity hrec => ?_, hwhol, hptr⟩
  · rcases State.get_put_cases hoth with ⟨rfl, rfl⟩ | ⟨-, hold⟩
    · exact hft
    · exact (hsound.fits sid' other hold).still hold hkp (State.grows_put hget hlv)
  · have hsl : ((s.withRedis r).put sid conn').connections.get sid = some conn' :=
      State.get_put_self
    rcases hkn sid' identity hrec with ⟨rfl, rfl⟩ | hold
    · exact ⟨conn', hsl, hide⟩
    · obtain ⟨other, hoth, hid⟩ := hsound.known sid' identity hold
      rcases State.put_cases hget hoth with ⟨rfl, rfl⟩ | ⟨-, hkt⟩
      · exact ⟨conn', hsl, hide.trans hid⟩
      · exact ⟨other, hkt, hid⟩

theorem Sound.quiet (hget : s.connections.get sid = some conn)
    (hlv : conn.live = false → conn'.live = false) (hide : conn'.identity = conn.identity)
    (hft : Fits channel user (s.put sid conn') sid conn') : Sound channel user (s.put sid conn') :=
  hsound.put hget Keeps.refl hlv hide hft (fun _ _ => .inr) hsound.whole hsound.pointer

/-! ## Connections and the handler of a join -/

theorem Sound.connects (hfr : s.connections.get sid = none)
    (hhr : conn.channel = channel) (hown : conn.user = user) (hjn : conn.join = .waiting)
    (hlea : conn.leave = .waiting) : Sound channel user (s.put sid conn) := by
  refine ⟨fun sid' other hoth => ?_, hsound.removals, hsound.readers,
    fun sid' identity hrec => ?_, hsound.whole, hsound.pointer⟩
  · rcases State.get_put_cases (r := s.redis) hoth with ⟨rfl, rfl⟩ | ⟨-, hold⟩
    · exact ⟨.fresh hhr hown hjn hlea, fun _ h => absurd hjn h, by simp [hjn]⟩
    · exact (hsound.fits sid' other hold).still hold Keeps.refl (State.grows_connect hfr)
  · obtain ⟨other, hoth, hid⟩ := hsound.known sid' identity hrec
    exact ⟨other, State.get_put_of_free hfr hoth, hid⟩

theorem Sound.disconnects (hget : s.connections.get sid = some conn) :
    Sound channel user (s.put sid { conn with live := false }) := by
  have hft := hsound.fits sid conn hget
  have hstl : Fits channel user (s.put sid { conn with live := false }) sid conn :=
    hft.still_put hget fun _ => rfl
  exact hsound.quiet hget (fun _ => rfl) rfl ⟨hstl.toSteady.disconnected, nofun, hstl.written⟩

end

theorem Fits.joined (hft : Fits channel user s' sid conn) {phase : JoinPhase}
    (hjn : conn.join ≠ .done)
    (hrec : conn.live = true → s'.redis.vcConns.get (channel.id, sid) = some conn.identity)
    (hpres : conn.live = true → (channel.id, user) ∈ s'.redis.vcMembers ∨
      phase = .setIdentity true ∨ phase = .create ∨
        ∃ left, phase = .writing left ∧ .saddMembers channel.id user ∈ left)
    (hwr : ∀ left, phase = .writing left →
      ∃ before, createVoiceState channel user conn.joinedAt = before ++ left ∧
        (.saddMembers channel.id user ∈ left → ∀ write ∈ before, ∀ field,
          write.sets (uniqueKey channel user) field = true →
            s'.redis.hasState (uniqueKey channel user) field = true)) :
    Fits channel user s' sid { conn with join := phase } :=
  ⟨hft.toSteady.joined hjn hrec, fun hlv _ => hpres hlv, hwr⟩

section

variable (hsound : Sound channel user s) (hget : s.connections.get sid = some conn)
include hsound hget

theorem Sound.records (hjn : conn.join = .waiting) : Sound channel user (s.recorded sid conn) := by
  have hft := hsound.fits sid conn hget
  obtain rfl := hft.here
  obtain rfl := hft.owner
  have hst : ∀ key field, (s.redis.recordVoiceConnection conn.channel conn.user sid
      conn.identity).1.hasState key field = s.redis.hasState key field := by
    rintro key (_ | flag) <;> rfl
  have hkp : Keeps conn.channel conn.user s
      (s.redis.recordVoiceConnection conn.channel conn.user sid conn.identity).1 := by
    refine ⟨fun sid' other hoth _ hrec =>
      ⟨State.recordVoiceConnection_keeps hget hoth hrec, id⟩, fun field h => .inl ?_⟩
    exact h
  have hsl : (s.redis.recordVoiceConnection conn.channel conn.user sid
      conn.identity).1.vcConns.get (conn.channel.id, sid) = some conn.identity :=
    (Store.recordVoiceConnection_get ..).trans (if_pos rfl)
  refine hsound.put hget hkp id rfl (Fits.joined ?_ (hjn ▸ nofun) (fun _ => hsl)
    (fun _ => ?_) nofun) (fun sid' identity => Store.recordVoiceConnection_cases)
    (fun hmb field => ?_) hsound.pointer
  · exact hft.still hget hkp (State.grows_put hget id)
  · by_cases hmb : (conn.channel.id, conn.user) ∈ s.redis.vcMembers
    · exact .inl hmb
    · exact .inr (.inl (by simp [Store.recordVoiceConnection, hmb]))
  · rw [hst]
    exact hsound.whole hmb field

theorem Sound.names
    {first : Bool} (hjn : conn.join = .setIdentity first) : Sound channel user (s.named sid conn first) := by
  have hft := hsound.fits sid conn hget
  have hwait : conn.join ≠ .waiting := fun h => by cases hjn.symm.trans h
  have hst : ∀ key field, (s.redis.setVoiceParticipantIdentity conn.channel.id conn.user
      conn.identity).hasState key field = s.redis.hasState key field := by
    rintro key (_ | flag) <;> rfl
  have hkp : Keeps channel user s
      (s.redis.setVoiceParticipantIdentity conn.channel.id conn.user conn.identity) :=
    ⟨fun _ _ _ _ hrec => ⟨hrec, id⟩, fun field h => .inl (by rw [hst]; exact h)⟩
  refine hsound.put hget hkp id rfl (Fits.joined ?_ (hjn ▸ nofun)
    (fun hlv => hft.recorded hlv hwait) (fun hlv => ?_)
    (by cases first <;> exact fun _ h => nomatch h)) (fun _ _ => .inr) (fun hmb field => ?_)
    hsound.pointer
  · exact hft.still hget hkp (State.grows_put hget id)
  · rcases hft.present hlv hwait with hmb | hset | hcr | ⟨left, hwrit, -⟩
    · exact .inl hmb
    · rw [hjn] at hset
      obtain rfl := JoinPhase.setIdentity.inj hset
      exact .inr (.inr (.inl rfl))
    · exact nomatch hjn.symm.trans hcr
    · exact nomatch hjn.symm.trans hwrit
  · rw [hst]
    exact hsound.whole hmb field

theorem Sound.joins {phase : JoinPhase} (htr : JoinTurn s.redis sid conn conn.join phase) :
    Sound channel user (s.put sid { conn with join := phase }) := by
  have hstl : Fits channel user (s.put sid { conn with join := phase }) sid conn :=
    (hsound.fits sid conn hget).still_put hget id
  have hqui : conn.join ≠ .done → conn.join ≠ .waiting → conn.join ≠ .setIdentity true →
      conn.join ≠ .create → (∀ left, conn.join = .writing left → left = []) →
        (∀ left, phase ≠ .writing left) →
          Sound channel user (s.put sid { conn with join := phase }) := by
    intro hdn hwait hset hcr hwrit hnx
    refine hsound.quiet hget id rfl (hstl.joined hdn
      (fun hlv => hstl.recorded hlv hwait) (fun hlv => ?_)
      fun left h => absurd h (hnx left))
    rcases hstl.present hlv hwait with hmb | hset' | hcr' | ⟨left, hlf, hmem⟩
    · exact .inl hmb
    · exact absurd hset' hset
    · exact absurd hcr' hcr
    · rw [hwrit left hlf] at hmem
      cases hmem
  generalize hjn : conn.join = join at htr
  cases htr with
  | ends =>
    refine hqui (hjn ▸ nofun) (hjn ▸ nofun) (hjn ▸ nofun) (hjn ▸ nofun) (fun left h => ?_)
      fun _ => nofun
    exact (JoinPhase.writing.inj (hjn.symm.trans h)).symm
  | _ =>
    exact hqui (hjn ▸ nofun) (hjn ▸ nofun) (hjn ▸ nofun) (hjn ▸ nofun) (hjn ▸ nofun) fun _ => nofun

theorem Sound.begins (hjn : conn.join = .create) : Sound channel user (s.put sid
      { conn with
        join := .writing (createVoiceState conn.channel conn.user conn.joinedAt) }) := by
  have hft := hsound.fits sid conn hget
  have hwait : conn.join ≠ .waiting := fun h => by cases hjn.symm.trans h
  obtain rfl := hft.here
  obtain rfl := hft.owner
  have hros : .saddMembers conn.channel.id conn.user ∈
      createVoiceState conn.channel conn.user conn.joinedAt := by simp [createVoiceState]
  refine hsound.quiet hget id rfl (Fits.joined ?_ (by simp [hjn])
    (fun hlv => hft.recorded hlv hwait)
    (fun _ => .inr (.inr (.inr ⟨_, rfl, hros⟩))) fun left h => ?_)
  · exact hft.still_put hget id
  · obtain rfl := JoinPhase.writing.inj h
    exact ⟨[], rfl, fun _ write hw => absurd hw not_mem_nil⟩

end

theorem exists_sets_before {joinedAt : Timestamp} {before left : List Write}
    (hspl : createVoiceState channel user joinedAt =
      before ++ .saddMembers channel.id user :: left) (field : StateKey) :
    ∃ write ∈ before, write.sets (uniqueKey channel user) field = true := by
  obtain ⟨write, hw, hse⟩ := exists_sets channel user joinedAt field
  refine ⟨write, ?_, hse⟩
  have hros : Write.saddMembers channel.id user ∉
      (createVoiceState channel user joinedAt).take 10 := by simp [createVoiceState]
  rw [hspl, List.take_append] at hw hros
  -- the roster is not among the first ten, so all of these come before it
  cases hcnt : 10 - before.length with
  | zero =>
    rw [hcnt, List.take_zero, append_nil] at hw
    exact List.mem_of_mem_take hw
  | succ count =>
    rw [hcnt, List.take_succ_cons] at hros
    exact absurd (mem_append_right _ mem_cons_self) hros

theorem Sound.writes (hsound : Sound channel user s) (hget : s.connections.get sid = some conn)
    {write : Write} {left : List Write} (hjn : conn.join = .writing (write :: left)) :
    Sound channel user ((s.withRedis (s.redis.write write)).put sid
      { conn with join := .writing left }) := by
  have hft := hsound.fits sid conn hget
  have hwait : conn.join ≠ .waiting := fun h => by cases hjn.symm.trans h
  obtain ⟨before, hspl, hwr⟩ := hft.written _ hjn
  have hmem : write ∈ createVoiceState channel user conn.joinedAt := by
    rw [hspl]
    exact mem_append_right _ mem_cons_self
  have hcon := s.redis.write_vcConns write
  have hkp : Keeps channel user s (s.redis.write write) :=
    ⟨fun sid' other _ _ hrec => ⟨hcon ▸ hrec, Store.mem_write_vcMembers⟩,
      fun field h => .inl (Store.hasState_write write h)⟩
  refine hsound.put hget hkp id rfl (Fits.joined ?_ (hjn ▸ nofun)
    (fun hlv => hcon ▸ hft.recorded hlv hwait) (fun hlv => ?_)
    fun left' h => ?_) (fun sid' identity hrec => .inr (hcon ▸ hrec))
    (fun hmb field => ?_) fun other hptr => ?_
  · exact hft.still hget hkp (State.grows_put hget id)
  · rcases hft.present hlv hwait with hmb | hset | hcr | ⟨left', hlf', hros⟩
    · exact .inl (Store.mem_write_vcMembers hmb)
    · exact nomatch hjn.symm.trans hset
    · exact nomatch hjn.symm.trans hcr
    · obtain rfl := JoinPhase.writing.inj (hjn.symm.trans hlf')
      rcases mem_cons.mp hros with rfl | hrs
      · exact .inl List.mem_insert_self
      · exact .inr (.inr (.inr ⟨left, rfl, hrs⟩))
  · obtain rfl := JoinPhase.writing.inj h
    refine ⟨before ++ [write], by simpa using hspl, fun hrs write' hw' field hse => ?_⟩
    rcases mem_append.mp hw' with hold | hnew
    · exact Store.hasState_write write (hwr (mem_cons_of_mem _ hrs) write' hold field hse)
    · obtain rfl := mem_singleton.mp hnew
      exact s.redis.hasState_of_sets hse
  · rcases Store.mem_write_vcMembers_cases hmb with rfl | hold
    · obtain ⟨write', hw', hse⟩ := exists_sets_before hspl field
      exact Store.hasState_write _ (hwr mem_cons_self write' hw' field hse)
    · exact Store.hasState_write _ (hsound.whole hold field)
  · rcases Store.get_write_pointers hptr with rfl | hold
    · simpa [createVoiceState] using hmem
    · exact hsound.pointer other hold

/-! ## The handler of a leave -/

variable {phase : LeavePhase}

theorem Fits.left (hft : Fits channel user s' sid conn) (hmay : conn.mayLeave = true)
    (hstead : Steady channel user s' sid { conn with leave := phase }) :
    Fits channel user s' sid { conn with leave := phase } := by
  simp only [Connection.mayLeave, and_eq_true, not_eq_true'] at hmay
  have hde : ¬ ({ conn with leave := phase } : Connection).live = true := by simp [hmay.1]
  exact ⟨hstead, fun h => absurd h hde, hft.written⟩

theorem Sound.leaves (hsound : Sound channel user s) (hget : s.connections.get sid = some conn)
    (hmay : conn.mayLeave = true)
    (htr : LeaveTurn s.redis (s.listed conn.channel) sid conn conn.leave phase) :
    Sound channel user (s.put sid { conn with leave := phase }) := by
  have hft := hsound.fits sid conn hget
  have hstl : Fits channel user (s.put sid { conn with leave := phase }) sid conn :=
    hft.still_put hget id
  refine hsound.quiet hget id rfl (hstl.left hmay (hft.toSteady.turned hget
    (fun sid' other hoth => (hsound.fits sid' other hoth).here) (fun sid' identity h => ?_)
    hmay htr))
  obtain ⟨other, hoth, -⟩ := hsound.known sid' identity h
  exact isSome_iff_exists.mpr ⟨other, hoth⟩

theorem Sound.owned (hsound : Sound channel user s) :
    ∀ sid identity, s.redis.vcConns.get (channel.id, sid) = some identity →
      identity.user = user := by
  intro sid identity hrec
  obtain ⟨conn, hget, rfl⟩ := hsound.known sid identity hrec
  exact (hsound.fits sid conn hget).owner

section

variable (hsound : Sound channel user s) (hget : s.connections.get sid = some conn)
  (hmay : conn.mayLeave = true)
include hsound hget hmay

/-- **A teardown of connections that are gone**, where another is left or nobody is halfway. -/
theorem Sound.tears {sids : List String} (hde : ∀ sid ∈ sids, s.Dead sid)
    (hund : Survives s channel user sids ∨ Settled s)
    (hr : r = ((s.redis.forget channel user sids).tearDownLast channel user).1)
    (hph : phase = .readRecord ∨ phase = .done) :
    Sound channel user ((s.withRedis r).put sid { conn with leave := phase }) := by
  obtain ⟨hlf, hcas⟩ := Store.tearDownLast_forget hsound.owned hsound.pointer hr
  have hlv : ∀ sid' other, s.connections.get sid' = some other → other.live = true →
      s.redis.vcConns.get (channel.id, sid') = some other.identity →
        r.vcConns.get (channel.id, sid') = some other.identity := by
    refine fun sid' other hoth hlv hrec => (hlf sid' _).mpr ⟨hrec, fun hsid => ?_⟩
    rw [(hde sid' hsid).not_live hoth] at hlv
    cases hlv
  have hkn : ∀ sid' identity, r.vcConns.get (channel.id, sid') = some identity →
      sid' = sid ∧ identity = conn.identity ∨
        s.redis.vcConns.get (channel.id, sid') = some identity :=
    fun sid' identity hrec => .inr ((hlf sid' identity).mp hrec).1
  have hput : ∀ (_ : Keeps channel user s r) (_ : (channel.id, user) ∈ r.vcMembers →
        ∀ field, r.hasState (uniqueKey channel user) field = true)
      (_ : ∀ other, r.pointers.get (uniqueKey channel user) = some other → other = channel.id),
        Sound channel user ((s.withRedis r).put sid { conn with leave := phase }) := by
    intro hkp hwhol hptr
    have hstl : Fits channel user ((s.withRedis r).put sid { conn with leave := phase }) sid
        conn := (hsound.fits sid conn hget).still hget hkp (State.grows_put hget id)
    refine hsound.put hget hkp id rfl (hstl.left hmay (hstl.toSteady.left hmay ?_ ?_))
      hkn hwhol hptr
    · rcases hph with rfl | rfl <;> nofun
    · rcases hph with rfl | rfl <;> nofun
  rcases hcas with ⟨sid', identity, -, heq⟩ | ⟨hno, hgn⟩
  · have hmbs : r.vcMembers = s.redis.vcMembers := by rw [heq]; rfl
    have hpoin : r.pointers = s.redis.pointers := by rw [heq]; rfl
    have hst : ∀ field, r.hasState (uniqueKey channel user) field =
        s.redis.hasState (uniqueKey channel user) field := by
      rw [heq]
      rintro (_ | flag) <;> rfl
    refine hput ⟨fun sid' other hoth h hrec => ⟨hlv sid' other hoth h hrec, ?_⟩,
      fun field h => .inl ?_⟩ (fun hmb field => ?_) fun other hptr => ?_
    · exact fun hmb => hmbs ▸ hmb
    · rw [hst]
      exact h
    · rw [hst]
      exact hsound.whole (hmbs ▸ hmb) field
    · exact hsound.pointer other (hpoin ▸ hptr)
  · have hsett : Settled s := by
      refine hund.resolve_left ?_
      rintro ⟨entry, hent, hsid⟩
      obtain ⟨hrec, -⟩ := Store.mem_recordedVoiceConnections.mp hent
      have hkt := (hlf entry.1 entry.2).mpr ⟨hrec, hsid⟩
      rw [hno] at hkt
      cases hkt
    refine hput ⟨fun sid' other hoth h hrec => ?_, fun _ _ => .inr hsett⟩
      (fun hmb => absurd hmb hgn.vcMembers) fun other hptr => ?_
    · have hkt := hlv sid' other hoth h hrec
      rw [hno] at hkt
      cases hkt
    · rw [hgn.pointer] at hptr
      cases hptr

theorem Sound.tearsDown (hlea : conn.leave = .script)
    (hund : TearsDownNobody s sid conn) (hph : phase = .readRecord ∨ phase = .done) :
    Sound channel user (s.tornDown sid conn (.connection sid) phase) := by
  have hft := hsound.fits sid conn hget
  rw [TearsDownNobody, hlea] at hund
  obtain rfl := hft.here
  obtain rfl := hft.owner
  rw [State.tornDown, Store.deleteVoiceState_connection (hsound.owned sid)]
  refine hsound.tears hget hmay (fun sid' hsid => ?_) hund rfl hph
  obtain rfl := mem_singleton.mp hsid
  simp only [Connection.mayLeave, and_eq_true, not_eq_true'] at hmay
  exact ⟨conn, hget, hmay.1⟩

theorem Sound.drops {stale : List String} (hlea : conn.leave = .dropStale stale)
    (hund : TearsDownNobody s sid conn) :
    Sound channel user (s.tornDown sid conn (.connections stale) .done) := by
  have hft := hsound.fits sid conn hget
  rw [TearsDownNobody, hlea] at hund
  obtain rfl := hft.here
  obtain rfl := hft.owner
  exact hsound.tears hget hmay (hft.drop stale hlea) hund
    (s.redis.deleteVoiceState_connections conn.channel conn.user stale) (.inr rfl)

end

end Put

/-! ## Readers -/

section Readers

variable {n : Nat} {reader : Reader} {r : Store}

section

variable (hsound : Sound channel user s) (hread : reader.channel = channel)
include hsound hread

/-- **The rule for a step of a reader.** -/
theorem Sound.putReader (hkp : Keeps channel user s r)
    (hkn : ∀ sid identity, r.vcConns.get (channel.id, sid) = some identity →
      s.redis.vcConns.get (channel.id, sid) = some identity)
    (hwhol : (channel.id, user) ∈ r.vcMembers →
      ∀ field, r.hasState (uniqueKey channel user) field = true)
    (hptr : ∀ other, r.pointers.get (uniqueKey channel user) = some other → other = channel.id) :
    Sound channel user ((s.withRedis r).putReader n reader) := by
  have hgrow : s.Grows ((s.withRedis r).putReader n reader) := ⟨fun _ h => h, fun _ h => h⟩
  refine ⟨fun sid conn hget => (hsound.fits sid conn hget).still hget hkp hgrow,
    hsound.removals, fun n' other hoth => ?_,
    fun sid identity hrec => hsound.known sid identity (hkn sid identity hrec), hwhol,
    hptr⟩
  rw [State.putReader, get_insert] at hoth
  split_ifs at hoth
  · cases hoth
    exact hread
  · exact hsound.readers n' other hoth

theorem Sound.reads : Sound channel user (s.putReader n reader) :=
  hsound.putReader hread Keeps.refl (fun _ _ h => h) hsound.whole hsound.pointer

theorem Sound.repairsOther {other : String} (hoth : other ≠ user) : Sound channel user ((s.withRedis
      (s.redis.deleteVoiceState channel other .user).1).putReader n reader) := by
  generalize hkt : { s.redis with vcConns := s.redis.vcConns.retain fun entry identity =>
    ¬ (entry.1 = channel.id ∧ identity.user = other) } = kept
  have hr : (s.redis.deleteVoiceState channel other .user).1 = (kept.tearDown channel other).1 := by
    rw [← hkt]
    rfl
  have hcon : ∀ sid identity, kept.vcConns.get (channel.id, sid) = some identity ↔
      s.redis.vcConns.get (channel.id, sid) = some identity := by
    intro sid identity
    rw [← hkt, get_retain_eq_some, and_iff_left_iff_imp]
    intro hrec
    have huse := hsound.owned sid identity hrec
    exact decide_eq_true fun h => hoth (h.2.symm.trans huse)
  have hmbs : (channel.id, user) ∈ (kept.tearDown channel other).1.vcMembers ↔
      (channel.id, user) ∈ s.redis.vcMembers := by
    rw [Store.tearDown_vcMembers, mem_filter, ← hkt]
    simp [hoth.symm]
  obtain ⟨hpoin, hst⟩ := kept.tearDown_other channel hoth
  have hold : ∀ field, (kept.tearDown channel other).1.hasState (uniqueKey channel user) field =
      s.redis.hasState (uniqueKey channel user) field := by
    intro field
    rw [hst, ← hkt]
    cases field <;> rfl
  rw [hr]
  refine hsound.putReader hread ⟨fun sid conn _ _ hrec => ⟨?_, hmbs.mpr⟩,
    fun field h => .inl ((hold field).trans h)⟩ (fun sid identity hrec => ?_)
    (fun hmb field => (hold field).trans (hsound.whole (hmbs.mp hmb) field))
    fun channel' hptr => ?_
  · rw [Store.tearDown_vcConns]
    exact (hcon sid _).mpr hrec
  · rw [Store.tearDown_vcConns] at hrec
    exact (hcon sid identity).mp hrec
  · rw [hpoin, ← hkt] at hptr
    exact hsound.pointer channel' hptr

/-- **A repair**, where nobody is halfway and no live connection is recorded. -/
theorem Sound.repairsUser
    (hsett : Settled s) (hgn : ∀ entry ∈ s.redis.recordedVoiceConnections channel user,
      ∀ conn ∈ s.connections.get entry.1, conn.live = false) : Sound channel user ((s.withRedis
        (s.redis.deleteVoiceState channel user .user).1).putReader n reader) := by
  generalize hkt : { s.redis with vcConns := s.redis.vcConns.retain fun entry identity =>
    ¬ (entry.1 = channel.id ∧ identity.user = user) } = kept
  have hr : (s.redis.deleteVoiceState channel user .user).1 = (kept.tearDown channel user).1 := by
    rw [← hkt]
    rfl
  have hnoth : (kept.tearDown channel user).1.Gone channel user := by
    refine Store.gone_tearDown fun other hptr => hsound.pointer other ?_
    rw [← hkt] at hptr
    exact hptr
  rw [hr]
  refine hsound.putReader hread ⟨fun sid conn hget hlv hrec => ?_,
    fun _ _ => .inr hsett⟩ (fun sid identity hrec => ?_)
    (fun hmb => absurd hmb hnoth.vcMembers) fun other hptr => ?_
  · have hmem := Store.mem_recordedVoiceConnections.mpr ⟨hrec, (hsound.fits sid conn hget).owner⟩
    have hde := hgn _ hmem conn hget
    rw [hlv] at hde
    cases hde
  · rw [Store.tearDown_vcConns, ← hkt, get_retain_eq_some] at hrec
    exact hrec.1
  · rw [hnoth.pointer] at hptr
    cases hptr

end

theorem Sound.repairs (hsound : Sound channel user s) (hget : s.readers.get n = some reader)
    {member : String} {members : List String} (hph : reader.phase = .repair member members)
    (hund : RepairsNobody s reader) : Sound channel user ((s.withRedis
      (s.redis.deleteVoiceState reader.channel member .user).1).putReader n
        { reader with phase := .next members }) := by
  have hhr := hsound.readers n reader hget
  rw [hhr]
  by_cases hmb : member = user
  · rw [RepairsNobody, hph, hhr, hmb] at hund
    rw [hmb]
    exact hsound.repairsUser rfl hund.1 hund.2
  · exact hsound.repairsOther rfl hmb

end Readers

/-! ## Runs -/

/-- **What a step keeps.** -/
theorem Sound.step {action : Action} (hsound : Sound channel user s)
    (hrm : OneRoom channel user action) (hund : Undisturbed s action)
    (hsp : Step false s action s') : Sound channel user s' := by
  cases hsp with
  | connects sid channel' identity createdAt hfr => exact hsound.connects hfr hrm.1 hrm.2 rfl rfl
  | disconnects sid conn hget => exact hsound.disconnects hget
  | records sid conn hget hjn => exact hsound.records hget hjn
  | names sid conn first hget hjn => exact hsound.names hget hjn
  | joins sid conn phase hget htr => exact hsound.joins hget htr
  | begins sid conn hget hwhol hjn => exact hsound.begins hget hjn
  | creates sid conn hget hwhol => cases hwhol
  | writes sid conn write left hget hjn => exact hsound.writes hget hjn
  | leaves sid conn phase hget hmay htr => exact hsound.leaves hget hmay htr
  | tearsDown sid conn phase hget hmay hlea hph =>
    exact hsound.tearsDown hget hmay hlea (hund conn hget) (hph.symm.imp_left And.left)
  | drops sid conn stale hget hmay hlea => exact hsound.drops hget hmay hlea (hund conn hget)
  | startsRemoval n channel' user' hfr => exact hrm.elim
  | removes n removal phase hget | evicts n removal recorded holdsState hget
  | tearsDownRemoved n removal sids hget =>
    rw [hsound.removals] at hget
    cases hget
  | startsReader n channel' hfr => exact hsound.reads hrm
  | reads n reader phase hget htr => exact hsound.reads (hsound.readers n reader hget)
  | repairs n reader member members hget hph => exact hsound.repairs hget hph (hund reader hget)

theorem sound_empty : Sound channel user .empty :=
  ⟨by simp [State.empty], fun _ => rfl, by simp [State.empty], by simp [State.empty, Store.empty],
    by simp [State.empty, Store.empty], by simp [State.empty, Store.empty]⟩

/-- The user is a member of the channel, with a recorded connection and a state that reads. -/
structure Present (s : State) (channel : UserVoiceChannel) (user : String) : Prop where
  member : (channel.id, user) ∈ s.redis.vcMembers
  recorded : ∃ sid identity,
    s.redis.vcConns.get (channel.id, sid) = some identity ∧ identity.user = user
  readable : (s.redis.getVoiceState channel user).isSome

/-- **A live join is there to be seen**, in a run that nothing disturbs: from the end of its handler
on. -/
theorem live_join_is_present {history : List (State × Action)}
    (hrun : Run (exec false) (fun s action => OneRoom channel user action ∧ Undisturbed s action)
      .empty history s) {sid : String} {conn : Connection}
    (hget : s.connections.get sid = some conn) (hlive : conn.live = true)
    (hjoin : conn.join = .done) : Present s channel user := by
  have hsound : Sound channel user s := by
    refine hrun.invariant (fun s action hadmits hsound => ?_) sound_empty
    obtain hsame | hstep := exec_step false s action
    · rw [hsame]
      exact hsound
    · exact hsound.step hadmits.1 hadmits.2 hstep
  have hfits := hsound.fits sid conn hget
  have hmember : (channel.id, user) ∈ s.redis.vcMembers := by
    have hpresent := hfits.present hlive (hjoin ▸ nofun)
    rwa [hjoin, or_iff_left (by simp)] at hpresent
  exact ⟨hmember, ⟨sid, _, hfits.recorded hlive (hjoin ▸ nofun), hfits.owner⟩,
    Store.getVoiceState_isSome.mpr fun field _ => hsound.whole hmember field⟩

/-! ## A join between the reads and the repair -/

instance (s : State) (sid : String) : ∀ conn, Decidable (TearsDownNobody s sid conn)
  | ⟨_, _, _, _, _, _, .script⟩ => inferInstanceAs (Decidable ((∃ entry ∈ _, _) ∨ ∀ conn ∈ _, _))
  | ⟨_, _, _, _, _, _, .dropStale _⟩ =>
    inferInstanceAs (Decidable ((∃ entry ∈ _, _) ∨ ∀ conn ∈ _, _))
  | ⟨_, _, _, _, _, _, .waiting⟩ => .isTrue trivial
  | ⟨_, _, _, _, _, _, .readRecord⟩ => .isTrue trivial
  | ⟨_, _, _, _, _, _, .list _⟩ => .isTrue trivial
  | ⟨_, _, _, _, _, _, .done⟩ => .isTrue trivial

instance (s : State) : ∀ reader, Decidable (RepairsNobody s reader)
  | ⟨_, .repair ..⟩ => inferInstanceAs (Decidable ((∀ conn ∈ _, _) ∧ ∀ entry ∈ _, _))
  | ⟨_, .members⟩ => .isTrue trivial
  | ⟨_, .state _⟩ => .isTrue trivial
  | ⟨_, .done⟩ => .isTrue trivial

instance (channel : UserVoiceChannel) (user : String) :
    ∀ action, Decidable (OneRoom channel user action)
  | .connect .. => inferInstanceAs (Decidable (_ ∧ _))
  | .startReader .. => inferInstanceAs (Decidable (_ = _))
  | .startRemoval .. => .isFalse id
  | .disconnect _ | .joined _ | .left _ | .removal _ | .reader _ => .isTrue trivial

instance (s : State) : ∀ action, Decidable (Undisturbed s action)
  | .reader _ => inferInstanceAs (Decidable (∀ reader ∈ _, _))
  | .left _ => inferInstanceAs (Decidable (∀ conn ∈ _, _))
  | .connect .. | .startReader .. | .startRemoval .. | .disconnect _ | .joined _ | .removal _ =>
    .isTrue trivial

def room : UserVoiceChannel := ⟨"room", none⟩

/-- A connection and the whole handler of its join. -/
def joins (sid : String) (createdAt : Int) : List Action :=
  .connect sid room ⟨"user", some sid⟩ createdAt :: List.replicate 18 (.joined sid)

/-- The first connection leaves when a reader has read the members. -/
def leftUnderReader : List Action :=
  joins "a" 1 ++ [.startReader 0 room, .reader 0, .disconnect "a", .left "a", .left "a", .reader 0]

/-- The reader repairs what it has seen, and the user comes back. -/
def repairedInTime : List Action := leftUnderReader ++ [.reader 0] ++ joins "b" 2

/-- The user is back before the repair. -/
def repairedLate : List Action := leftUnderReader ++ joins "b" 2 ++ [.reader 0]

/-- The connection that has come back. -/
def backAgain : Connection :=
  { channel := room, identity := ⟨"user", some "b"⟩, createdAt := 2, visit := 1, live := true,
    join := .done, leave := .waiting }

set_option maxRecDepth 4000 in
theorem live_join_is_present_repaired_in_time :
    ("room", "user") ∈ (execAll (exec false) .empty repairedInTime).redis.vcMembers := by
  have hrun : Run (exec false)
      (fun s action => OneRoom room "user" action ∧ Undisturbed s action) .empty _
      (execAll (exec false) .empty repairedInTime) := Run.of_admitsAll (by decide)
  have hget : (execAll (exec false) .empty repairedInTime).connections.get "b" = some backAgain := by
    decide
  exact (live_join_is_present hrun hget rfl rfl).member

/-- No handler and no reader is on its way. -/
structure Finished (s : State) : Prop where
  handlers : ∀ conn ∈ s.connections.values,
    (conn.join = .waiting ∨ conn.join = .done) ∧ (conn.leave = .waiting ∨ conn.leave = .done)
  readers : ∀ reader ∈ s.readers.values, reader.phase = .done

set_option maxRecDepth 4000 in
theorem repair_erases_a_live_join : ¬ ∀ (history : List (State × Action)) (s : State),
      Run (exec false) (fun _ action => OneRoom room "user" action) .empty history s →
        Finished s → ∀ sid conn, s.connections.get sid = some conn → conn.live = true →
          conn.join = .done → Present s room "user" := by
  intro hclaim
  have hrun : Run (exec false) (fun _ action => OneRoom room "user" action) .empty _
      (execAll (exec false) .empty repairedLate) := Run.of_admitsAll (by decide)
  have hget : (execAll (exec false) .empty repairedLate).connections.get "b" = some backAgain := by
    decide
  have hpresent := hclaim _ _ hrun ⟨by decide, by decide⟩ "b" backAgain hget rfl rfl
  exact absurd hpresent.member (by decide)

end RosterRepair
end SlogaBackend.Voice
