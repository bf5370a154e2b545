import SlogaBackend.Voice.Handlers

/-!
# A sibling connection keeps its voice state

A user's connections to a channel come and go one by one, and the voice state is one for all of
them. The handler of a leave, and a removal, decide from what they have read earlier: the record
first, the listing of the SFU after it. A connection that is live and recorded is in both, so it
is never among those that are deleted; and the script that deletes looks for a survivor itself.

So the state stays as long as a connection does (`Sound`), and it is gone with the last one. The
mapping is less: a handler of a join writes it in a step of its own, when its connection may have
been deleted already. Until the handler of the leave has run it may name that one.
-/

namespace SlogaBackend.Voice
namespace Siblings

variable (channel : UserVoiceChannel) (user : String)

/-- One user and one channel, and nobody reads the roster. -/
def OneRoom (_ : State) : Action → Prop
  | .connect _ channel' identity _ => channel' = channel ∧ identity.user = user
  | .startRemoval _ channel' user' => channel' = channel ∧ user' = user
  | .startReader .. => False
  | _ => True

instance (s : State) : DecidablePred (OneRoom channel user s)
  | .connect _ channel' identity _ =>
    inferInstanceAs (Decidable (channel' = channel ∧ identity.user = user))
  | .startRemoval _ channel' user' => inferInstanceAs (Decidable (channel' = channel ∧ user' = user))
  | .startReader .. => isFalse id
  | .disconnect _ | .joined _ | .left _ | .removal _ | .reader _ => isTrue trivial

end Siblings

/-- The script of its leave has run. -/
def Connection.torn (conn : Connection) : Bool :=
  match conn.leave with
  | .waiting => false
  | .script => false
  | _ => true

/-- The handler of its join has begun, and the script of its leave has not run. -/
def State.Pending (s : State) (sid : String) (identity : Identity) : Prop :=
  ∃ conn, s.connections.get sid = some conn ∧ conn.identity = identity ∧ conn.join ≠ .waiting ∧
    conn.torn = false

namespace Siblings

/-- What is so of a connection. -/
structure Fits (channel : UserVoiceChannel) (user : String) (s : State) (sid : String)
    (conn : Connection) : Prop extends Steady channel user s sid conn where
  unwritten : ∀ left, conn.join ≠ .writing left
  present : conn.live = true → conn.join ≠ .waiting →
    (channel.id, user) ∈ s.redis.vcMembers ∨ conn.join = .setIdentity true ∨ conn.join = .create
  named : conn.live = true → conn.join ≠ .waiting → (∀ first, conn.join ≠ .setIdentity first) →
    (s.redis.voiceIdentity.get (channel.id, user)).isSome

/-- What is so of a removal: the sids it has read are known, and those it tears down are gone. -/
structure RemovalFits (channel : UserVoiceChannel) (user : String) (s : State) (removal : Removal) :
    Prop where
  here : removal.channel = channel
  owner : removal.user = user
  holds : ∀ recorded, removal.phase = .holds recorded →
    ∀ sid ∈ recorded, (s.connections.get sid).isSome
  evict : ∀ recorded holdsState, removal.phase = .evict recorded holdsState →
    ∀ sid ∈ recorded, (s.connections.get sid).isSome
  tearDown : ∀ sids, removal.phase = .tearDown sids → ∀ sid ∈ sids, s.Dead sid

/-- **What is so of Redis and those who work on it.** -/
structure Sound (channel : UserVoiceChannel) (user : String) (s : State) : Prop where
  fits : ∀ sid conn, s.connections.get sid = some conn → Fits channel user s sid conn
  removals : ∀ n removal, s.removals.get n = some removal → RemovalFits channel user s removal
  readers : ∀ n, s.readers.get n = none
  known : ∀ sid identity, s.redis.vcConns.get (channel.id, sid) = some identity →
    s.Pending sid identity
  whole : (channel.id, user) ∈ s.redis.vcMembers → (user, channel) ∈ s.redis.vc ∧
    ∀ field, s.redis.hasState (uniqueKey channel user) field = true
  pointer : ∀ other, s.redis.pointers.get (uniqueKey channel user) = some other → other = channel.id
  mapping : ∀ identity, s.redis.voiceIdentity.get (channel.id, user) = some identity →
    ∃ sid, s.Pending sid identity
  clean : (∀ sid conn, s.connections.get sid = some conn → conn.torn = true) →
    s.redis.Gone channel user

variable {channel : UserVoiceChannel} {user : String} {s : State}

/-! ## The others -/

/-- What a live connection has of Redis is not lost. -/
def Keeps (channel : UserVoiceChannel) (user : String) (s : State) (r : Store) : Prop :=
  ∀ sid conn, s.connections.get sid = some conn → conn.live = true →
    s.redis.vcConns.get (channel.id, sid) = some conn.identity →
      r.vcConns.get (channel.id, sid) = some conn.identity ∧
        ((channel.id, user) ∈ s.redis.vcMembers → (channel.id, user) ∈ r.vcMembers) ∧
          ((s.redis.voiceIdentity.get (channel.id, user)).isSome →
            (r.voiceIdentity.get (channel.id, user)).isSome)

theorem Keeps.refl : Keeps channel user s s.redis := fun _ _ _ _ hget => ⟨hget, id, id⟩

variable {s' : State}

theorem Fits.still {sid : String} {conn : Connection} (hft : Fits channel user s sid conn)
    (hget : s.connections.get sid = some conn) (hkp : Keeps channel user s s'.redis)
    (hgrow : s.Grows s') : Fits channel user s' sid conn where
  toSteady := hft.toSteady.still (fun hlv h => (hkp sid conn hget hlv h).1) hgrow
  unwritten := hft.unwritten
  present hlv hstd :=
    (hft.present hlv hstd).imp_left (hkp sid conn hget hlv (hft.recorded hlv hstd)).2.1
  named hlv hstd hset :=
    (hkp sid conn hget hlv (hft.recorded hlv hstd)).2.2 (hft.named hlv hstd hset)

theorem RemovalFits.still {removal : Removal} (hft : RemovalFits channel user s removal)
    (hgrow : s.Grows s') :
    RemovalFits channel user s' removal where
  here := hft.here
  owner := hft.owner
  holds recorded hph sid hsid := hgrow.known _ (hft.holds recorded hph sid hsid)
  evict recorded h hph sid hsid := hgrow.known _ (hft.evict recorded h hph sid hsid)
  tearDown sids hph sid hsid := hgrow.dead _ (hft.tearDown sids hph sid hsid)

section Put

variable {sid : String} {conn conn' : Connection} {r : Store}

theorem pending_put {sid' : String} {identity : Identity} (hget : s.connections.get sid = some conn)
    (hide : conn'.identity = conn.identity) (hstd : conn.join ≠ .waiting → conn'.join ≠ .waiting)
    (htr : sid' = sid → conn.torn = false → conn'.torn = false)
    (hpend : s.Pending sid' identity) : ((s.withRedis r).put sid conn').Pending sid' identity := by
  obtain ⟨other, hoth, hid, hjn, hlea⟩ := hpend
  rcases State.put_cases hget hoth with ⟨rfl, rfl⟩ | ⟨-, hkt⟩
  · exact ⟨conn', State.get_put_self, hide.trans hid, hstd hjn, htr rfl hlea⟩
  · exact ⟨other, hkt, hid, hjn, hlea⟩

theorem pending_put_self (hstd : conn'.join ≠ .waiting) (htr : conn'.torn = false) :
    ((s.withRedis r).put sid conn').Pending sid conn'.identity :=
  ⟨conn', State.get_put_self, rfl, hstd, htr⟩

section

variable (hsound : Sound channel user s) (hget : s.connections.get sid = some conn)
include hsound hget

/-- **The rule for a step of a handler.** What it makes of Redis is right for all, and its
connection fits in. -/
theorem Sound.put (hkp : Keeps channel user s r) (hlv : conn.live = false → conn'.live = false)
    (hft : Fits channel user ((s.withRedis r).put sid conn') sid conn')
    (hkn : ∀ sid' identity, r.vcConns.get (channel.id, sid') = some identity →
      ((s.withRedis r).put sid conn').Pending sid' identity)
    (hwhol : (channel.id, user) ∈ r.vcMembers → (user, channel) ∈ r.vc ∧
      ∀ field, r.hasState (uniqueKey channel user) field = true)
    (hptr : ∀ other, r.pointers.get (uniqueKey channel user) = some other → other = channel.id)
    (hmapp : ∀ identity, r.voiceIdentity.get (channel.id, user) = some identity →
      ∃ sid', ((s.withRedis r).put sid conn').Pending sid' identity) (hcle : conn'.torn = true →
      (∀ sid' other, s.connections.get sid' = some other → sid' ≠ sid → other.torn = true) →
        r.Gone channel user) : Sound channel user ((s.withRedis r).put sid conn') where
  fits sid' other hoth := by
    rcases State.get_put_cases hoth with ⟨rfl, rfl⟩ | ⟨-, hold⟩
    · exact hft
    · exact (hsound.fits sid' other hold).still hold hkp (State.grows_put hget hlv)
  removals n removal hrem := (hsound.removals n removal hrem).still (State.grows_put hget hlv)
  readers := hsound.readers
  known := hkn
  whole := hwhol
  pointer := hptr
  mapping := hmapp
  clean htr := by
    refine hcle (htr sid conn' State.get_put_self) fun sid' other hoth hsid => ?_
    exact htr sid' other ((State.get_put_of_ne hsid).trans hoth)

theorem Sound.quiet
    (hlv : conn.live = false → conn'.live = false) (hide : conn'.identity = conn.identity)
    (hstd : conn.join ≠ .waiting → conn'.join ≠ .waiting) (htr : conn'.torn = conn.torn)
    (hft : Fits channel user (s.put sid conn') sid conn') :
    Sound channel user (s.put sid conn') := by
  have hpend : ∀ sid' identity, s.Pending sid' identity →
      ((s.withRedis s.redis).put sid conn').Pending sid' identity := fun sid' identity =>
    pending_put hget hide hstd fun _ h => htr.trans h
  refine hsound.put hget Keeps.refl hlv hft
    (fun sid' identity hrec => hpend sid' identity (hsound.known sid' identity hrec))
    hsound.whole hsound.pointer (fun identity hmapp => ?_) fun hsl hoths => ?_
  · obtain ⟨sid', hsid'⟩ := hsound.mapping identity hmapp
    exact ⟨sid', hpend sid' identity hsid'⟩
  · refine hsound.clean fun sid' other hoth => ?_
    by_cases hsid : sid' = sid
    · subst hsid
      rw [hget] at hoth
      cases hoth
      exact htr ▸ hsl
    · exact hoths sid' other hoth hsid

end

theorem Fits.still_put (hft : Fits channel user s sid conn)
    (hget : s.connections.get sid = some conn) (hlv : conn.live = false → conn'.live = false) :
    Fits channel user (s.put sid conn') sid conn :=
  hft.still hget Keeps.refl (State.grows_put hget hlv)

/-! ## The handler of a join -/

theorem Fits.torn_eq (hft : Fits channel user s sid conn) (hjn : conn.join ≠ .done) :
    conn.torn = false := by
  unfold Connection.torn
  rw [hft.leave_eq hjn]

variable {phase : JoinPhase}

theorem Fits.joined {s' : State} (hft : Fits channel user s' sid conn) (hjn : conn.join ≠ .done)
    (hunw : ∀ left, phase ≠ .writing left)
    (hrec : conn.live = true → s'.redis.vcConns.get (channel.id, sid) = some conn.identity)
    (hpres : conn.live = true →
      (channel.id, user) ∈ s'.redis.vcMembers ∨ phase = .setIdentity true ∨ phase = .create)
    (hnam : conn.live = true → (∀ first, phase ≠ .setIdentity first) →
      (s'.redis.voiceIdentity.get (channel.id, user)).isSome) :
    Fits channel user s' sid { conn with join := phase } :=
  ⟨hft.toSteady.joined hjn hrec, hunw, fun hlv _ => hpres hlv, fun hlv _ => hnam hlv⟩

section

variable (hsound : Sound channel user s) (hget : s.connections.get sid = some conn)
include hsound hget

/-- **The rule for a step of the handler of a join.** -/
theorem Sound.putJoin (hdn : conn.join ≠ .done) (hstd : phase ≠ .waiting)
    (hunw : ∀ left, phase ≠ .writing left) (hkp : Keeps channel user s r)
    (hrec : conn.live = true → r.vcConns.get (channel.id, sid) = some conn.identity)
    (hpres : conn.live = true →
      (channel.id, user) ∈ r.vcMembers ∨ phase = .setIdentity true ∨ phase = .create)
    (hnam : conn.live = true → (∀ first, phase ≠ .setIdentity first) →
      (r.voiceIdentity.get (channel.id, user)).isSome)
    (hcon : ∀ sid' identity, r.vcConns.get (channel.id, sid') = some identity →
      sid' = sid ∧ identity = conn.identity ∨
        s.redis.vcConns.get (channel.id, sid') = some identity)
    (hwhol : (channel.id, user) ∈ r.vcMembers → (user, channel) ∈ r.vc ∧
      ∀ field, r.hasState (uniqueKey channel user) field = true)
    (hptr : ∀ other, r.pointers.get (uniqueKey channel user) = some other → other = channel.id)
    (hmapp : ∀ identity, r.voiceIdentity.get (channel.id, user) = some identity →
      identity = conn.identity ∨ s.redis.voiceIdentity.get (channel.id, user) = some identity) :
    Sound channel user ((s.withRedis r).put sid { conn with join := phase }) := by
  have hft := hsound.fits sid conn hget
  have htr := hft.torn_eq hdn
  have hpend : ∀ sid' identity, s.Pending sid' identity →
      ((s.withRedis r).put sid { conn with join := phase }).Pending sid' identity :=
    fun sid' identity => pending_put hget rfl (fun _ => hstd) fun _ h => h
  have hsl : ((s.withRedis r).put sid { conn with join := phase }).Pending sid conn.identity :=
    pending_put_self hstd htr
  have hstl : Fits channel user ((s.withRedis r).put sid { conn with join := phase }) sid conn :=
    hft.still hget hkp (State.grows_put hget id)
  refine hsound.put hget hkp id (hstl.joined hdn hunw hrec hpres hnam)
    (fun sid' identity h => ?_) hwhol hptr (fun identity h => ?_)
    fun h => absurd (htr.symm.trans h) nofun
  · rcases hcon sid' identity h with ⟨rfl, rfl⟩ | hold
    · exact hsl
    · exact hpend sid' identity (hsound.known sid' identity hold)
  · rcases hmapp identity h with rfl | hold
    · exact ⟨sid, hsl⟩
    · obtain ⟨sid', hsid'⟩ := hsound.mapping identity hold
      exact ⟨sid', hpend sid' identity hsid'⟩

theorem Sound.records (hjn : conn.join = .waiting) : Sound channel user (s.recorded sid conn) := by
  have hft := hsound.fits sid conn hget
  obtain rfl := hft.here
  obtain rfl := hft.owner
  have hkp : Keeps conn.channel conn.user s
      (s.redis.recordVoiceConnection conn.channel conn.user sid conn.identity).1 :=
    fun sid' other hoth _ hrec => ⟨State.recordVoiceConnection_keeps hget hoth hrec, id, id⟩
  refine hsound.putJoin hget (hjn ▸ nofun) nofun (fun _ => nofun) hkp
    (fun _ => (Store.recordVoiceConnection_get ..).trans (if_pos rfl)) (fun _ => ?_)
    (fun _ h => absurd rfl (h _)) (fun sid' identity => Store.recordVoiceConnection_cases)
    hsound.whole hsound.pointer fun _ => .inr
  by_cases hmb : (conn.channel.id, conn.user) ∈ s.redis.vcMembers
  · exact .inl hmb
  · exact .inr (.inl (by simp [Store.recordVoiceConnection, hmb]))

theorem Sound.names
    {first : Bool} (hjn : conn.join = .setIdentity first) : Sound channel user (s.named sid conn first) := by
  have hft := hsound.fits sid conn hget
  have hwait : conn.join ≠ .waiting := hjn ▸ nofun
  obtain rfl := hft.here
  obtain rfl := hft.owner
  have hmap : (s.redis.setVoiceParticipantIdentity conn.channel.id conn.user
      conn.identity).voiceIdentity.get (conn.channel.id, conn.user) = some conn.identity :=
    get_insert_self
  refine hsound.putJoin hget (hjn ▸ nofun) (by cases first <;> nofun)
    (fun _ => by cases first <;> nofun)
    (fun _ _ _ _ hrec => ⟨hrec, id, fun _ => isSome_iff_exists.mpr ⟨_, hmap⟩⟩)
    (fun hlv => hft.recorded hlv hwait) (fun hlv => ?_)
    (fun _ _ => isSome_iff_exists.mpr ⟨_, hmap⟩) (fun _ _ => .inr) hsound.whole
    hsound.pointer fun identity h => ?_
  · rcases hft.present hlv hwait with hmb | hset | hcr
    · exact .inl hmb
    · rw [hjn] at hset
      obtain rfl := JoinPhase.setIdentity.inj hset
      exact .inr (.inr rfl)
    · rw [hjn] at hcr
      cases hcr
  · rw [hmap] at h
    exact .inl (some.inj h).symm

theorem Sound.joins (htn : JoinTurn s.redis sid conn conn.join phase) :
    Sound channel user (s.put sid { conn with join := phase }) := by
  have hft := hsound.fits sid conn hget
  have hstl : Fits channel user (s.put sid { conn with join := phase }) sid conn :=
    hft.still_put hget id
  -- the steps before and after are behind the mapping, and the user is a member
  have hqui : conn.join ≠ .done → conn.join ≠ .waiting → conn.join ≠ .create →
      (∀ first, conn.join ≠ .setIdentity first) → phase ≠ .waiting →
        (∀ left, phase ≠ .writing left) →
          Sound channel user (s.put sid { conn with join := phase }) := by
    intro hdn hwait hcr hset hnx hunw
    refine hsound.quiet hget id rfl (fun _ => hnx) rfl (hstl.joined hdn hunw
      (fun hlv => hstl.recorded hlv hwait) (fun hlv => ?_)
      fun hlv _ => hstl.named hlv hwait hset)
    rcases hstl.present hlv hwait with hmb | hset' | hcr'
    · exact .inl hmb
    · exact absurd hset' (hset true)
    · exact absurd hcr' hcr
  generalize hjn : conn.join = join at htn
  cases htn with
  | ends => exact absurd hjn (hft.unwritten [])
  | _ => exact hqui (hjn ▸ nofun) (hjn ▸ nofun) (hjn ▸ nofun) (hjn ▸ nofun) nofun fun _ => nofun

theorem Sound.creates (hjn : conn.join = .create) : Sound channel user ((s.withRedis
      (s.redis.create conn.channel conn.user conn.joinedAt)).put sid
        { conn with join := .done }) := by
  have hft := hsound.fits sid conn hget
  have hwait : conn.join ≠ .waiting := hjn ▸ nofun
  obtain rfl := hft.here
  obtain rfl := hft.owner
  refine hsound.putJoin hget (hjn ▸ nofun) nofun (fun _ => nofun)
    (fun _ _ _ _ hrec => ⟨hrec, fun _ => List.mem_insert_self, id⟩)
    (fun hlv => hft.recorded hlv hwait) (fun _ => .inl List.mem_insert_self)
    (fun hlv _ => hft.named hlv hwait (hjn ▸ nofun)) (fun _ _ => .inr)
    (fun _ => ⟨List.mem_insert_self, s.redis.create_hasState conn.channel conn.user conn.joinedAt⟩)
    (fun other hptr => ?_) fun _ => .inr
  rw [Store.create_pointers, get_insert_self] at hptr
  exact (some.inj hptr).symm

end

/-! ## Connections and the handler of a leave -/

theorem Sound.connects (hsound : Sound channel user s) (hfr : s.connections.get sid = none)
    (hhr : conn.channel = channel) (hown : conn.user = user) (hjn : conn.join = .waiting)
    (hlea : conn.leave = .waiting) : Sound channel user (s.put sid conn) := by
  have hgrow : s.Grows (s.put sid conn) := State.grows_connect hfr
  have hpend : ∀ sid' identity, s.Pending sid' identity → (s.put sid conn).Pending sid' identity :=
    fun sid' identity ⟨other, hoth, hrs⟩ => ⟨other, State.get_put_of_free hfr hoth, hrs⟩
  refine ⟨fun sid' other hoth => ?_,
    fun n removal hrem => (hsound.removals n removal hrem).still hgrow, hsound.readers,
    fun sid' identity hrec => hpend sid' identity (hsound.known sid' identity hrec),
    hsound.whole, hsound.pointer, fun identity hmapp => ?_, fun htr => ?_⟩
  · rcases State.get_put_cases (r := s.redis) hoth with ⟨rfl, rfl⟩ | ⟨-, hold⟩
    · exact ⟨.fresh hhr hown hjn hlea, by simp [hjn], fun _ h => absurd hjn h,
        fun _ h => absurd hjn h⟩
    · exact (hsound.fits sid' other hold).still hold Keeps.refl hgrow
  · obtain ⟨sid', hsid'⟩ := hsound.mapping identity hmapp
    exact ⟨sid', hpend sid' identity hsid'⟩
  · have hsl := htr sid conn (State.get_put_self (r := s.redis))
    simp [Connection.torn, hlea] at hsl

theorem Sound.disconnects (hsound : Sound channel user s)
    (hget : s.connections.get sid = some conn) :
    Sound channel user (s.put sid { conn with live := false }) := by
  have hft := hsound.fits sid conn hget
  have hstl : Fits channel user (s.put sid { conn with live := false }) sid conn :=
    hft.still_put hget fun _ => rfl
  exact hsound.quiet hget (fun _ => rfl) rfl id rfl
    ⟨hstl.toSteady.disconnected, hft.unwritten, nofun, nofun⟩

theorem Fits.left {s' : State} (hft : Fits channel user s' sid conn) (hmay : conn.mayLeave = true)
    {phase : LeavePhase} (hstead : Steady channel user s' sid { conn with leave := phase }) :
    Fits channel user s' sid { conn with leave := phase } := by
  simp only [Connection.mayLeave, and_eq_true, not_eq_true'] at hmay
  have hde : ¬ ({ conn with leave := phase } : Connection).live = true := by simp [hmay.1]
  exact ⟨hstead, hft.unwritten, fun h => absurd h hde, fun h => absurd h hde⟩

section

variable (hsound : Sound channel user s)
include hsound

theorem Sound.here : ∀ sid conn, s.connections.get sid = some conn → conn.channel = channel :=
  fun sid conn hget => (hsound.fits sid conn hget).here

theorem Sound.isSome_of_recorded :
    ∀ sid identity, s.redis.vcConns.get (channel.id, sid) = some identity →
      (s.connections.get sid).isSome := by
  intro sid identity hrec
  obtain ⟨conn, hget, -⟩ := hsound.known sid identity hrec
  exact isSome_iff_exists.mpr ⟨conn, hget⟩

theorem Sound.leaves (hget : s.connections.get sid = some conn)
    (hmay : conn.mayLeave = true) {phase : LeavePhase}
    (htn : LeaveTurn s.redis (s.listed conn.channel) sid conn conn.leave phase) :
    Sound channel user (s.put sid { conn with leave := phase }) := by
  have hft := hsound.fits sid conn hget
  have hstl : Fits channel user (s.put sid { conn with leave := phase }) sid conn :=
    hft.still_put hget id
  have hstead := hft.toSteady.turned hget hsound.here hsound.isSome_of_recorded hmay htn
  refine hsound.quiet hget id rfl id ?_ (hstl.left hmay hstead)
  generalize hlea : conn.leave = leave at htn
  cases htn with
  | foreign identity hrec huse =>
    -- the record of a connection has the identity of its own user
    rw [hft.here] at hrec
    obtain ⟨other, hoth, rfl, -⟩ := hsound.known sid identity hrec
    cases hget.symm.trans hoth
    exact absurd rfl huse
  | _ => simp [Connection.torn, hlea]

end

end Put

/-! ## Teardowns -/

section Teardowns

variable {sids : List String} {r : Store}

section

variable (hsound : Sound channel user s)
include hsound

theorem Sound.owned : ∀ sid identity, s.redis.vcConns.get (channel.id, sid) = some identity →
      identity.user = user := by
  intro sid identity hrec
  obtain ⟨conn, hget, rfl, -⟩ := hsound.known sid identity hrec
  exact (hsound.fits sid conn hget).owner

theorem Sound.tearDownLast
    (hr : r = ((s.redis.forget channel user sids).tearDownLast channel user).1) :
    (∀ sid identity, r.vcConns.get (channel.id, sid) = some identity ↔
      s.redis.vcConns.get (channel.id, sid) = some identity ∧ sid ∉ sids) ∧
      ((∃ sid identity, r.vcConns.get (channel.id, sid) = some identity ∧
        r = { s.redis with vcConns := r.vcConns }.setVoiceParticipantIdentity channel.id user
          identity) ∨
        (∀ sid, r.vcConns.get (channel.id, sid) = none) ∧ r.Gone channel user) :=
  Store.tearDownLast_forget hsound.owned hsound.pointer hr

/-- **Only those who are gone are deleted.** A live connection survives. -/
theorem Sound.keeps_tearDownLast
    (hde : ∀ sid ∈ sids, ∀ conn, s.connections.get sid = some conn → conn.live = false)
    (hr : r = ((s.redis.forget channel user sids).tearDownLast channel user).1) :
    Keeps channel user s r := by
  obtain ⟨hlf, hcas⟩ := hsound.tearDownLast hr
  intro sid conn hget hlv hrec
  have hkt : r.vcConns.get (channel.id, sid) = some conn.identity := by
    refine (hlf sid conn.identity).mpr ⟨hrec, fun hsid => ?_⟩
    rw [hde sid hsid conn hget] at hlv
    cases hlv
  refine ⟨hkt, ?_⟩
  rcases hcas with ⟨sid', identity, -, heq⟩ | ⟨hno, -⟩
  · rw [heq]
    exact ⟨id, fun _ => isSome_iff_exists.mpr ⟨identity, get_insert_self⟩⟩
  · rw [hno] at hkt
    cases hkt

section

variable (hr : r = ((s.redis.forget channel user sids).tearDownLast channel user).1)
include hr

theorem Sound.whole_tearDownLast : ((channel.id, user) ∈ r.vcMembers → (user, channel) ∈ r.vc ∧
      ∀ field, r.hasState (uniqueKey channel user) field = true) ∧
      ∀ other, r.pointers.get (uniqueKey channel user) = some other → other = channel.id := by
  rcases (hsound.tearDownLast hr).2 with ⟨sid', identity, -, heq⟩ | ⟨-, hgn⟩
  · rw [heq]
    exact ⟨hsound.whole, hsound.pointer⟩
  · refine ⟨fun hmb => absurd hmb hgn.vcMembers, fun other hoth => ?_⟩
    rw [hgn.pointer] at hoth
    cases hoth

theorem Sound.mapping_tearDownLast
    {identity : Identity} (hmapp : r.voiceIdentity.get (channel.id, user) = some identity) :
    ∃ sid, r.vcConns.get (channel.id, sid) = some identity := by
  rcases (hsound.tearDownLast hr).2 with ⟨sid', found, hfnd, heq⟩ | ⟨-, hgn⟩
  · have hset : r.voiceIdentity.get (channel.id, user) = some found := by
      rw [heq]
      exact get_insert_self
    rw [hset] at hmapp
    cases hmapp
    exact ⟨sid', hfnd⟩
  · rw [hgn.voiceIdentity] at hmapp
    cases hmapp

end

theorem Sound.tears (hde : ∀ sid ∈ sids, s.Dead sid)
    (hr : r = ((s.redis.forget channel user sids).tearDownLast channel user).1) :
    Sound channel user (s.withRedis r) := by
  obtain ⟨hlf, hcas⟩ := hsound.tearDownLast hr
  have hgrow : s.Grows (s.withRedis r) := ⟨fun _ h => h, fun _ h => h⟩
  have hkp : Keeps channel user s r :=
    hsound.keeps_tearDownLast (fun sid hsid conn => (hde sid hsid).not_live) hr
  have hkn : ∀ sid identity, r.vcConns.get (channel.id, sid) = some identity →
      s.Pending sid identity := fun sid identity hrec =>
    hsound.known sid identity ((hlf sid identity).mp hrec).1
  refine ⟨fun sid conn hget => (hsound.fits sid conn hget).still hget hkp hgrow,
    fun n removal hrem => (hsound.removals n removal hrem).still hgrow, hsound.readers,
    hkn, (hsound.whole_tearDownLast hr).1, (hsound.whole_tearDownLast hr).2,
    fun identity hmapp => ?_, fun htr => ?_⟩
  · obtain ⟨sid, hrec⟩ := hsound.mapping_tearDownLast hr hmapp
    exact ⟨sid, hkn sid identity hrec⟩
  · rcases hcas with ⟨sid, identity, hrec, -⟩ | ⟨-, hgn⟩
    · obtain ⟨conn, hget, -, -, hunt⟩ := hkn sid identity hrec
      rw [htr sid conn hget] at hunt
      cases hunt
    · exact hgn

end

variable {sid : String} {conn : Connection}

section

variable (hsound : Sound channel user s) (hget : s.connections.get sid = some conn)
  (hmay : conn.mayLeave = true)
include hsound hget hmay

theorem Sound.tearsDown {phase : LeavePhase} (hph : phase = .readRecord ∨ phase = .done) :
    Sound channel user (s.tornDown sid conn (.connection sid) phase) := by
  have hft := hsound.fits sid conn hget
  obtain rfl := hft.here
  obtain rfl := hft.owner
  rw [State.tornDown, Store.deleteVoiceState_connection (hsound.owned sid)]
  generalize hr : ((s.redis.forget conn.channel conn.user [sid]).tearDownLast conn.channel
    conn.user).1 = r
  obtain ⟨hlf, hcas⟩ := hsound.tearDownLast hr.symm
  have hkp : Keeps conn.channel conn.user s r := by
    refine hsound.keeps_tearDownLast (fun sid' hsid other hoth => ?_) hr.symm
    obtain rfl := mem_singleton.mp hsid
    cases hget.symm.trans hoth
    simp only [Connection.mayLeave, and_eq_true, not_eq_true'] at hmay
    exact hmay.1
  have hkn : ∀ sid' identity, r.vcConns.get (conn.channel.id, sid') = some identity →
      ((s.withRedis r).put sid { conn with leave := phase }).Pending sid' identity := by
    intro sid' identity hrec
    obtain ⟨hold, hoth⟩ := (hlf sid' identity).mp hrec
    refine pending_put hget rfl id (fun hsid => ?_) (hsound.known sid' identity hold)
    exact absurd (mem_singleton.mpr hsid) hoth
  have hstl : Fits conn.channel conn.user ((s.withRedis r).put sid { conn with leave := phase })
      sid conn := hft.still hget hkp (State.grows_put hget id)
  have hstead : Steady conn.channel conn.user _ sid { conn with leave := phase } :=
    hstl.toSteady.left hmay (by rcases hph with rfl | rfl <;> exact fun _ h => by cases h)
      (by rcases hph with rfl | rfl <;> exact fun _ h => by cases h)
  refine hsound.put hget hkp id (hstl.left hmay hstead)
    hkn (hsound.whole_tearDownLast hr.symm).1 (hsound.whole_tearDownLast hr.symm).2
    (fun identity hmapp => ?_) fun hsl hoths => ?_
  · obtain ⟨sid', hrec⟩ := hsound.mapping_tearDownLast hr.symm hmapp
    exact ⟨sid', hkn sid' identity hrec⟩
  · rcases hcas with ⟨sid', identity, hrec, -⟩ | ⟨-, hgn⟩
    · obtain ⟨hold, hoth⟩ := (hlf sid' identity).mp hrec
      obtain ⟨other, hget', -, -, hunt⟩ := hsound.known sid' identity hold
      rw [hoths sid' other hget' fun hsid => hoth (mem_singleton.mpr hsid)] at hunt
      cases hunt
    · exact hgn

theorem Sound.drops {stale : List String} (hlea : conn.leave = .dropStale stale) :
    Sound channel user (s.tornDown sid conn (.connections stale) .done) := by
  have hft := hsound.fits sid conn hget
  obtain rfl := hft.here
  obtain rfl := hft.owner
  have htear := hsound.tears (hft.drop stale hlea)
    (s.redis.deleteVoiceState_connections conn.channel conn.user stale)
  have hstl := (htear.fits sid conn hget).still_put hget
    (id : conn.live = false → { conn with leave := .done }.live = false)
  exact htear.quiet hget id rfl id (by simp [Connection.torn, hlea])
    (hstl.left hmay (hstl.toSteady.left hmay nofun nofun))

end

end Teardowns

/-! ## Removals -/

section Removals

variable {n : ℕ} {removal : Removal}

theorem Sound.putRemoval (hsound : Sound channel user s)
    (hft : RemovalFits channel user s removal) : Sound channel user (s.putRemoval n removal) := by
  have hgrow : s.Grows (s.putRemoval n removal) := ⟨fun _ h => h, fun _ h => h⟩
  refine ⟨fun sid conn hget => (hsound.fits sid conn hget).still hget Keeps.refl hgrow,
    fun n' removal' hrem => ?_, hsound.readers, hsound.known, hsound.whole, hsound.pointer,
    hsound.mapping, hsound.clean⟩
  rw [State.putRemoval, get_insert] at hrem
  split_ifs at hrem
  · cases hrem
    exact hft.still hgrow
  · exact (hsound.removals n' removal' hrem).still hgrow

theorem Sound.removes (hsound : Sound channel user s) (hget : s.removals.get n = some removal)
    {phase : RemovalPhase} (htn : RemovalTurn s removal removal.phase phase) :
    Sound channel user (s.putRemoval n { removal with phase }) := by
  have hft := hsound.removals n removal hget
  generalize hph : removal.phase = before at htn
  cases htn with
  | readRecord =>
    refine hsound.putRemoval ⟨hft.here, hft.owner, fun recorded heq sid hsid => ?_, nofun, nofun⟩
    obtain rfl := RemovalPhase.holds.inj heq
    obtain ⟨entry, hent, rfl⟩ := mem_map.mp hsid
    obtain ⟨hrec, -⟩ := Store.mem_recordedVoiceConnections.mp hent
    rw [hft.here] at hrec
    obtain ⟨conn, hcn, -⟩ := hsound.known entry.1 entry.2 hrec
    rw [hcn]
    rfl
  | holds recorded holdsState =>
    refine hsound.putRemoval ⟨hft.here, hft.owner, nofun, fun recorded' _ heq => ?_, nofun⟩
    obtain ⟨rfl, -⟩ := RemovalPhase.evict.inj heq
    exact hft.holds recorded hph
  | skips recorded holdsState => exact hsound.putRemoval ⟨hft.here, hft.owner, nofun, nofun, nofun⟩

theorem get_evict (s : State) (channel : UserVoiceChannel) (user sid : String) :
    (s.evict channel user).connections.get sid = (s.connections.get sid).map fun conn =>
      if conn.channel.id = channel.id ∧ conn.user = user then { conn with live := false }
      else conn :=
  get_mapValues ..

theorem Sound.evict (hsound : Sound channel user s) : Sound channel user (s.evict channel user) ∧
      ∀ sid, (s.connections.get sid).isSome → (s.evict channel user).Dead sid := by
  have hget : ∀ sid conn, s.connections.get sid = some conn →
      (s.evict channel user).connections.get sid = some { conn with live := false } := by
    intro sid conn hcn
    have hft := hsound.fits sid conn hcn
    rw [get_evict, hcn, map_some, if_pos ⟨congrArg _ hft.here, hft.owner⟩]
  have hold : ∀ sid conn', (s.evict channel user).connections.get sid = some conn' →
      ∃ conn, s.connections.get sid = some conn ∧ conn' = { conn with live := false } := by
    intro sid conn' hcn'
    rw [get_evict, map_eq_some_iff] at hcn'
    obtain ⟨conn, hcn, rfl⟩ := hcn'
    have hft := hsound.fits sid conn hcn
    exact ⟨conn, hcn, if_pos ⟨congrArg _ hft.here, hft.owner⟩⟩
  have hde : ∀ sid, (s.connections.get sid).isSome → (s.evict channel user).Dead sid := by
    intro sid hsm
    obtain ⟨conn, hcn⟩ := isSome_iff_exists.mp hsm
    exact ⟨_, hget sid conn hcn, rfl⟩
  have hgrow : s.Grows (s.evict channel user) := by
    refine ⟨fun sid hsm => ?_, fun sid ⟨conn, hcn, _⟩ => ⟨_, hget sid conn hcn, rfl⟩⟩
    obtain ⟨conn, hcn⟩ := isSome_iff_exists.mp hsm
    rw [hget sid conn hcn]
    rfl
  have hpend : ∀ sid identity, s.Pending sid identity →
      (s.evict channel user).Pending sid identity :=
    fun sid identity ⟨conn, hcn, hrs⟩ => ⟨_, hget sid conn hcn, hrs⟩
  refine ⟨⟨fun sid conn' hcn' => ?_,
    fun n removal hrem => (hsound.removals n removal hrem).still hgrow, hsound.readers,
    fun sid identity hrec => hpend sid identity (hsound.known sid identity hrec),
    hsound.whole, hsound.pointer, fun identity hmapp => ?_, fun htr => ?_⟩, hde⟩
  · obtain ⟨conn, hcn, rfl⟩ := hold sid conn' hcn'
    have hstl : Fits channel user (s.evict channel user) sid conn :=
      (hsound.fits sid conn hcn).still hcn Keeps.refl hgrow
    exact ⟨hstl.toSteady.disconnected, hstl.unwritten, nofun, nofun⟩
  · obtain ⟨sid, hsid⟩ := hsound.mapping identity hmapp
    exact ⟨sid, hpend sid identity hsid⟩
  · refine hsound.clean fun sid conn hcn => ?_
    have hevi := htr sid _ (hget sid conn hcn)
    exact hevi

theorem mem_listedOf {s : State} {channel : UserVoiceChannel} {user sid : String}
    (hmem : sid ∈ s.listedOf channel user) : (s.connections.get sid).isSome := by
  obtain ⟨entry, hent, rfl⟩ := mem_map.mp hmem
  exact isSome_iff_exists.mpr
    ⟨entry.2, get_eq_some_iff.mpr (mem_filter.mp hent).1⟩

section

variable (hsound : Sound channel user s) (hget : s.removals.get n = some removal)
include hsound hget

theorem Sound.evicts {recorded : List String} {holdsState : Bool}
    (hph : removal.phase = .evict recorded holdsState) :
    Sound channel user ((s.evict removal.channel removal.user).putRemoval n
      { removal with
        phase := .tearDown (removalTeardownSids (s.listedOf removal.channel removal.user) recorded) }) := by
  have hft := hsound.removals n removal hget
  obtain rfl := hft.here
  obtain rfl := hft.owner
  obtain ⟨hevic, hde⟩ := hsound.evict
  refine hevic.putRemoval ⟨rfl, rfl, nofun, nofun, fun sids heq sid hsid => hde sid ?_⟩
  obtain rfl := RemovalPhase.tearDown.inj heq
  rcases mem_append.mp hsid with hlst | hrec
  · exact mem_listedOf hlst
  · exact hft.evict recorded holdsState hph sid (mem_filter.mp hrec).1

theorem Sound.tearsDownRemoved {sids : List String} (hph : removal.phase = .tearDown sids) :
    Sound channel user ((s.withRedis (s.redis.deleteVoiceState removal.channel
      removal.user (.connections sids)).1).putRemoval n { removal with phase := .done }) := by
  have hft := hsound.removals n removal hget
  obtain rfl := hft.here
  obtain rfl := hft.owner
  have htear := hsound.tears (hft.tearDown sids hph)
    (s.redis.deleteVoiceState_connections removal.channel removal.user sids)
  exact htear.putRemoval ⟨rfl, rfl, nofun, nofun, nofun⟩

end

end Removals

/-! ## Runs -/

/-- **What a step keeps.** -/
theorem Sound.step {action : Action} {s' : State} (hsound : Sound channel user s)
    (hrm : OneRoom channel user s action) (hsp : Step true s action s') :
    Sound channel user s' := by
  cases hsp with
  | connects sid channel' identity createdAt hfr => exact hsound.connects hfr hrm.1 hrm.2 rfl rfl
  | disconnects sid conn hget => exact hsound.disconnects hget
  | records sid conn hget hjn => exact hsound.records hget hjn
  | names sid conn first hget hjn => exact hsound.names hget hjn
  | joins sid conn phase hget htn => exact hsound.joins hget htn
  | begins sid conn hget hwhol => cases hwhol
  | creates sid conn hget hwhol hjn => exact hsound.creates hget hjn
  | writes sid conn write left hget hjn =>
    exact absurd hjn ((hsound.fits sid conn hget).unwritten _)
  | leaves sid conn phase hget hmay htn => exact hsound.leaves hget hmay htn
  | tearsDown sid conn phase hget hmay hlea hph =>
    exact hsound.tearsDown hget hmay (hph.symm.imp_left And.left)
  | drops sid conn stale hget hmay hlea => exact hsound.drops hget hmay hlea
  | startsRemoval n channel' user' hfr =>
    exact hsound.putRemoval ⟨hrm.1, hrm.2, nofun, nofun, nofun⟩
  | removes n removal phase hget htn => exact hsound.removes hget htn
  | evicts n removal recorded holdsState hget hph => exact hsound.evicts hget hph
  | tearsDownRemoved n removal sids hget hph => exact hsound.tearsDownRemoved hget hph
  | startsReader n channel' hfr => exact hrm.elim
  | reads n reader phase hget htn | repairs n reader user' members hget hph =>
    rw [hsound.readers] at hget
    cases hget

theorem sound_empty : Sound channel user .empty :=
  ⟨by simp [State.empty], by simp [State.empty], fun _ => rfl, by simp [State.empty, Store.empty],
    by simp [State.empty, Store.empty], by simp [State.empty, Store.empty],
    by simp [State.empty, Store.empty],
    fun _ => ⟨not_mem_nil, not_mem_nil, rfl, rfl, fun field => by cases field <;> rfl⟩⟩

theorem sound_of_run {history : List (State × Action)}
    (hrun : Run (exec true) (OneRoom channel user) .empty history s) : Sound channel user s := by
  refine hrun.invariant (fun s action hrm hsound => ?_) sound_empty
  obtain hsa | hsp := exec_step true s action
  · rw [hsa]
    exact hsound
  · exact hsound.step hrm hsp

/-- No handler and no removal is on its way. -/
structure Finished (s : State) : Prop where
  handlers : ∀ sid conn, s.connections.get sid = some conn →
    (conn.join = .waiting ∨ conn.join = .done) ∧ (conn.leave = .waiting ∨ conn.leave = .done)
  removals : ∀ n removal, s.removals.get n = some removal → removal.phase = .done

/-- The connection has joined, was not evicted and has not left. -/
def StillThere (s : State) : Prop :=
  ∃ sid conn, s.connections.get sid = some conn ∧ conn.live = true ∧ conn.join = .done

def MappingRecorded (channel : UserVoiceChannel) (user : String) (s : State) : Prop :=
  ∃ sid identity, s.redis.vcConns.get (channel.id, sid) = some identity ∧
    s.redis.voiceIdentity.get (channel.id, user) = some identity

/-- The mapping names a connection that is gone and whose leave is still to be handled. -/
def MappingDeparted (channel : UserVoiceChannel) (user : String) (s : State) : Prop :=
  ∃ sid conn, s.connections.get sid = some conn ∧ conn.live = false ∧ conn.join = .done ∧
    conn.leave = .waiting ∧ s.redis.voiceIdentity.get (channel.id, user) = some conn.identity

/-- **A sibling keeps the voice state, and the last one to leave takes it away.** -/
theorem sibling_keeps_its_voice_state {history : List (State × Action)}
    (hrun : Run (exec true) (OneRoom channel user) .empty history s) (hfinished : Finished s) :
    (StillThere s → (channel.id, user) ∈ s.redis.vcMembers ∧ (user, channel) ∈ s.redis.vc ∧
      (s.redis.getVoiceState channel user).isSome ∧
        (MappingRecorded channel user s ∨ MappingDeparted channel user s)) ∧
      ((∀ sid conn, s.connections.get sid = some conn → conn.leave = .done) →
        (∀ sid, s.redis.vcConns.get (channel.id, sid) = none) ∧
          s.redis.Gone channel user ∧ s.redis.getVoiceState channel user = none) := by
  have hsound : Sound channel user s := sound_of_run hrun
  constructor
  · rintro ⟨sid, conn, hget, hlive, hjoin⟩
    have hfits := hsound.fits sid conn hget
    have hmember : (channel.id, user) ∈ s.redis.vcMembers := by
      have hpresent := hfits.present hlive (hjoin ▸ nofun)
      rwa [hjoin, or_iff_left (by simp)] at hpresent
    obtain ⟨hvc, hstate⟩ := hsound.whole hmember
    refine ⟨hmember, hvc, Store.getVoiceState_isSome.mpr fun field _ => hstate field, ?_⟩
    obtain ⟨identity, hmapping⟩ := isSome_iff_exists.mp
      (hfits.named hlive (hjoin ▸ nofun) (hjoin ▸ nofun))
    obtain ⟨sid', other, hother, rfl, hstarted, htorn⟩ := hsound.mapping identity hmapping
    obtain ⟨hjoin', hleave'⟩ := hfinished.handlers sid' other hother
    cases hlive' : other.live with
    | true =>
      exact .inl ⟨sid', _, (hsound.fits sid' other hother).recorded hlive' hstarted, hmapping⟩
    | false =>
      refine .inr ⟨sid', other, hother, hlive', hjoin'.resolve_left hstarted,
        hleave'.resolve_right fun hleave => ?_, hmapping⟩
      simp [Connection.torn, hleave] at htorn
  · intro hhandled
    have htorn : ∀ sid conn, s.connections.get sid = some conn → conn.torn = true := by
      intro sid conn hget
      simp [Connection.torn, hhandled sid conn hget]
    have hgone := hsound.clean htorn
    refine ⟨fun sid => Option.eq_none_iff_forall_not_mem.mpr fun identity hrecorded => ?_, hgone, ?_⟩
    · obtain ⟨conn, hget, -, -, huntorn⟩ := hsound.known sid identity hrecorded
      rw [htorn sid conn hget] at huntorn
      cases huntorn
    · rw [← Option.not_isSome_iff_eq_none, Store.getVoiceState_isSome]
      intro hstate
      have hjoined := hstate .joinedAt (by simp [Store.requiredKeys])
      rw [hgone.state] at hjoined
      cases hjoined

/-! ## A mapping written late -/

def room : UserVoiceChannel := ⟨"room", none⟩

/-- Three connections join. The last one has left before its handler writes the mapping, and the
handler of the second's leave has dropped it from the record. -/
def lateMapping : List Action :=
  [.connect "a" room ⟨"user", some "a"⟩ 1, .joined "a", .joined "a", .joined "a",
    .connect "b" room ⟨"user", some "b"⟩ 2, .joined "b", .joined "b", .joined "b", .joined "b",
    .connect "c" room ⟨"user", some "c"⟩ 3, .joined "c", .disconnect "c", .disconnect "b",
    .left "b", .left "b", .left "b", .left "b", .left "b", .joined "c", .joined "c", .joined "c"]

def finished (s : State) : Bool :=
  (s.connections.values.all fun conn =>
    (conn.join = .waiting || conn.join = .done) && (conn.leave = .waiting || conn.leave = .done)) &&
    s.removals.values.all fun removal => removal.phase = .done

theorem finished_of_all {s : State} (h : finished s = true) : Finished s := by
  simp only [finished, and_eq_true, all_eq_true, or_eq_true, decide_eq_true_eq] at h
  exact ⟨fun sid conn hget => h.1 conn (mem_values_of_get hget),
    fun n removal hget => h.2 removal (mem_values_of_get hget)⟩

theorem sibling_keeps_its_voice_state_late_mapping :
    ("room", "user") ∈ (execAll (exec true) .empty lateMapping).redis.vcMembers := by
  have hrun : Run (exec true) (OneRoom room "user") .empty _
      (execAll (exec true) .empty lateMapping) := Run.of_admitsAll (by decide)
  have hstays := (sibling_keeps_its_voice_state hrun (finished_of_all (by decide))).1
  exact (hstays ⟨"a", _, by rfl, by rfl, by rfl⟩).1

theorem late_mapping_names_no_recorded_connection :
    ¬ ∀ (history : List (State × Action)) (s : State),
      Run (exec true) (OneRoom room "user") .empty history s → Finished s → StillThere s →
        MappingRecorded room "user" s := by
  intro hclaim
  have hrun : Run (exec true) (OneRoom room "user") .empty _
      (execAll (exec true) .empty lateMapping) := Run.of_admitsAll (by decide)
  obtain ⟨sid, identity, hrecorded, hmapping⟩ := hclaim _ _ hrun (finished_of_all (by decide))
    ⟨"a", _, by rfl, by rfl, by rfl⟩
  have hentries : (execAll (exec true) .empty lateMapping).redis.vcConns.values =
      [⟨"user", some "a"⟩] := by decide
  have hidentity := hentries ▸ mem_values_of_get hrecorded
  obtain rfl := mem_singleton.mp hidentity
  exact absurd hmapping (by decide)

end Siblings
end SlogaBackend.Voice
