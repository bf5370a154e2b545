import Mathlib.Data.List.MinMax
import SlogaBackend.Voice.Handlers

/-!
# Moving among the channels of a server

The pointer and the state of a user are shared by the channels of a server. A leave that comes
late finds another channel in the pointer and keeps the state. A join that comes late does not
look: it writes the pointer of a channel the user may have left already, over that of the channel
the user is in, and the leave that follows takes the state away.

Where the states are created in the order of the visits (`InOrder`), the user who stays has a state
in the channel of the last visit.
-/

namespace SlogaBackend.Voice
namespace Moves

variable (server user : String)

/-- Nobody else of the user is live. -/
def Alone (s : State) (sid : String) : Prop :=
  ∀ entry ∈ s.connections.entries, entry.2.live = true → entry.1 = sid

/-- The handlers of the visits to the channel before this one are done. -/
def Turn (s : State) (conn : Connection) : Prop :=
  ∀ entry ∈ s.connections.entries, entry.2.channel = conn.channel → entry.2.visit < conn.visit →
    entry.2.leave = .done

/-- What a user who moves does, and the order of the handlers of one room. A visit to a channel
begins when the last one there is over, and it ends after another has begun, unless the user leaves
altogether. -/
def Moving (s : State) : Action → Prop
  | .connect _ channel identity _ => channel.serverId = some server ∧ identity.user = user ∧
    ∀ entry ∈ s.connections.entries, entry.2.channel = channel → entry.2.live = false
  | .disconnect sid => ∀ conn ∈ s.connections.get sid, Alone s sid ∨
    ∃ entry ∈ s.connections.entries, entry.2.live = true ∧ conn.visit < entry.2.visit
  | .joined sid => ∀ conn ∈ s.connections.get sid, conn.join = .waiting → Turn s conn
  | .left _ => True
  | _ => False

/-- A state is created before those of later visits. -/
def InOrder (s : State) : Action → Prop
  | .joined sid => ∀ conn ∈ s.connections.get sid, conn.join = .create →
    ∀ entry ∈ s.connections.entries, conn.visit < entry.2.visit → entry.2.join ≠ .done
  | _ => True

instance (s : State) : DecidablePred (Moving server user s) := fun action => by
  cases action <;> (unfold Moving; try unfold Turn; try unfold Alone) <;> infer_instance

instance (s : State) (sid : String) : Decidable (Alone s sid) := by
  unfold Alone
  infer_instance

instance (s : State) : DecidablePred (InOrder s) := fun action => by
  cases action <;> (unfold InOrder) <;> infer_instance

end Moves

/-- The state of the user in the channel of the connection was created, and not torn down. -/
def Connection.inside (conn : Connection) : Prop := conn.join = .done ∧ conn.leave ≠ .done

namespace Moves

/-- What is so of a visit. -/
structure Fits (server user : String) (s : State) (conn : Connection) : Prop where
  here : conn.channel.serverId = some server
  owner : conn.user = user
  ordered : conn.leave ≠ .waiting → conn.join = .done ∧ conn.live = false
  join : conn.join = .waiting ∨ conn.join = .setIdentity true ∨ conn.join = .create ∨
    conn.join = .done
  leave : conn.leave = .waiting ∨ conn.leave = .script ∨ conn.leave = .done
  /-- The visits to the channel before this one are over. -/
  turn : conn.join ≠ .waiting → ∀ sid other, s.connections.get sid = some other →
    other.channel = conn.channel → other.visit < conn.visit → other.leave = .done
  visit : conn.visit < s.connections.keys.length

/-- The connection is the last to have had its state created. -/
def Latest (s : State) (conn : Connection) : Prop :=
  ∀ sid other, s.connections.get sid = some other → other.join = .done → other.visit ≤ conn.visit

/-- **What is so of Redis and the visits.** -/
structure Sound (server user : String) (s : State) : Prop where
  fits : ∀ sid conn, s.connections.get sid = some conn → Fits server user s conn
  visits : ∀ sid sid' conn conn', s.connections.get sid = some conn →
    s.connections.get sid' = some conn' → conn.visit = conn'.visit → sid = sid'
  removals : ∀ n, s.removals.get n = none
  readers : ∀ n, s.readers.get n = none
  recorded : ∀ id sid identity, s.redis.vcConns.get (id, sid) = some identity →
    ∃ conn, s.connections.get sid = some conn ∧ conn.channel.id = id ∧
      conn.identity = identity ∧ conn.join ≠ .waiting ∧ conn.leave ≠ .done
  members : ∀ id, (id, user) ∈ s.redis.vcMembers ↔
    ∃ sid conn, s.connections.get sid = some conn ∧ conn.channel.id = id ∧ conn.inside
  /-- Where the user is live, the last visit is. -/
  newest : (∃ sid conn, s.connections.get sid = some conn ∧ conn.live = true) →
    ∀ sid conn, s.connections.get sid = some conn →
      (∀ sid' other, s.connections.get sid' = some other → other.visit ≤ conn.visit) →
        conn.live = true
  latest : ∀ sid conn, s.connections.get sid = some conn → conn.inside → Latest s conn →
    s.redis.pointers.get ⟨user, server⟩ = some conn.channel.id ∧
      ∀ field, s.redis.hasState ⟨user, server⟩ field = true

variable {server user : String} {s : State} {sid : String} {conn conn' : Connection} {r : Store}

theorem Fits.key (hft : Fits server user s conn) :
    uniqueKey conn.channel conn.user = ⟨user, server⟩ := by
  rw [uniqueKey, UserVoiceChannel.parent, hft.here, hft.owner]
  rfl

theorem Fits.channel_eq (hft : Fits server user s conn) (hft' : Fits server user s conn')
    (hid : conn.channel.id = conn'.channel.id) : conn.channel = conn'.channel := by
  have hsrv := hft.here.trans hft'.here.symm
  cases hc : conn.channel
  cases hc' : conn'.channel
  rw [hc, hc'] at hid hsrv
  obtain rfl : _ = _ := hid
  obtain rfl : _ = _ := hsrv
  rfl

theorem Sound.one (hsound : Sound server user s) {sid' : String}
    (hget : s.connections.get sid = some conn) (hget' : s.connections.get sid' = some conn')
    (hcha : conn.channel.id = conn'.channel.id) (hjn : conn.join ≠ .waiting)
    (hjn' : conn'.join ≠ .waiting) (hlv : conn.leave ≠ .done) (hlv' : conn'.leave ≠ .done) :
    sid = sid' := by
  have hft := hsound.fits sid conn hget
  have hft' := hsound.fits sid' conn' hget'
  have heq := hft.channel_eq hft' hcha
  rcases lt_trichotomy conn.visit conn'.visit with hlt | hvisi | hlt
  · exact absurd (hft'.turn hjn' sid conn hget heq hlt) hlv
  · exact hsound.visits sid sid' conn conn' hget hget' hvisi
  · exact absurd (hft.turn hjn sid' conn' hget' heq.symm hlt) hlv'

theorem length_put (hget : s.connections.get sid = some conn) :
    ((s.withRedis r).put sid conn').connections.keys.length = s.connections.keys.length := by
  show (AList.insert sid conn' s.connections).keys.length = _
  rw [AList.keys_insert, length_cons, List.length_erase_of_mem (mem_keys_of_get hget)]
  exact Nat.succ_pred_eq_of_pos (List.length_pos_of_mem (mem_keys_of_get hget))

theorem latest_of_put {other : Connection} (hlat : Latest ((s.withRedis r).put sid conn') other)
    (hget : s.connections.get sid = some conn) (hvisi : conn'.visit = conn.visit)
    (hdn : conn.join = .done → conn'.join = .done) : Latest s other := by
  intro sid1 conn1 hget1 hjn1
  rcases State.put_cases hget hget1 with ⟨rfl, rfl⟩ | ⟨-, hkp⟩
  · rw [← hvisi]
    exact hlat sid1 conn' State.get_put_self (hdn hjn1)
  · exact hlat sid1 conn1 hkp hjn1

section

variable (hsound : Sound server user s) (hget : s.connections.get sid = some conn)
  (hsm : conn'.channel = conn.channel ∧ conn'.identity = conn.identity ∧ conn'.visit = conn.visit)
  (hli : conn'.live = conn.live ∨ conn'.live = false ∧ (Alone s sid ∨
    ∃ sid' other, s.connections.get sid' = some other ∧ conn.visit < other.visit))
  (hord : conn'.leave ≠ .waiting → conn'.join = .done ∧ conn'.live = false)
  (hjn : conn'.join = .waiting ∨ conn'.join = .setIdentity true ∨ conn'.join = .create ∨
    conn'.join = .done)
  (hlv : conn'.leave = .waiting ∨ conn'.leave = .script ∨ conn'.leave = .done)
include hsound hget hsm hli hord hjn hlv

/-- **The rule for a step of a handler.** The visit stays what it is; the leave may end. -/
theorem Sound.put
    (htr : conn'.join ≠ .waiting → conn.join ≠ .waiting ∨ Turn s conn)
    (hdn : conn.leave = .done → conn'.leave = .done)
    (hrec : ∀ id sid' identity, r.vcConns.get (id, sid') = some identity →
      ∃ other, ((s.withRedis r).put sid conn').connections.get sid' = some other ∧
        other.channel.id = id ∧ other.identity = identity ∧ other.join ≠ .waiting ∧
          other.leave ≠ .done) (hmbs : ∀ id, (id, user) ∈ r.vcMembers ↔ ∃ sid' other,
      ((s.withRedis r).put sid conn').connections.get sid' = some other ∧
        other.channel.id = id ∧ other.inside)
    (hlat : ∀ sid' other, ((s.withRedis r).put sid conn').connections.get sid' = some other →
      other.inside → Latest ((s.withRedis r).put sid conn') other →
        r.pointers.get ⟨user, server⟩ = some other.channel.id ∧
          ∀ field, r.hasState ⟨user, server⟩ field = true) :
    Sound server user ((s.withRedis r).put sid conn') := by
  obtain ⟨hcha, hide, hvisi⟩ := hsm
  have hft := hsound.fits sid conn hget
  -- what a visit was before, with its channel and number
  have hold : ∀ sid' other, ((s.withRedis r).put sid conn').connections.get sid' = some other →
      ∃ old, s.connections.get sid' = some old ∧ other.channel = old.channel ∧
        other.visit = old.visit ∧ (old.leave = .done → other.leave = .done) := by
    intro sid' other hoth
    rcases State.get_put_cases hoth with ⟨rfl, rfl⟩ | ⟨-, hoth⟩
    · exact ⟨conn, hget, hcha, hvisi, hdn⟩
    · exact ⟨other, hoth, rfl, rfl, id⟩
  have hnew : ∀ sid' old, s.connections.get sid' = some old → ∃ other,
      ((s.withRedis r).put sid conn').connections.get sid' = some other ∧
        other.visit = old.visit := by
    intro sid' old hgeto
    rcases State.put_cases hget hgeto with ⟨rfl, rfl⟩ | ⟨-, hkp⟩
    · exact ⟨conn', State.get_put_self, hvisi⟩
    · exact ⟨old, hkp, rfl⟩
  refine ⟨fun sid' other hoth => ?_, fun sid1 sid2 conn1 conn2 hget1 hget2 heq => ?_,
    hsound.removals, hsound.readers, hrec, hmbs, ?_, hlat⟩
  · have htr' : ∀ conn0 : Connection, Turn s conn0 → ∀ sid1 conn1,
        ((s.withRedis r).put sid conn').connections.get sid1 = some conn1 →
          conn1.channel = conn0.channel → conn1.visit < conn0.visit → conn1.leave = .done := by
      intro conn0 htr0 sid1 conn1 hget1 hcha1 hlt
      obtain ⟨old, hgeto, hch, hvis, hke⟩ := hold sid1 conn1 hget1
      exact hke (htr0 ⟨sid1, old⟩ (State.mem_entries.mpr hgeto) (hch.symm.trans hcha1) (hvis ▸ hlt))
    rcases State.get_put_cases hoth with ⟨rfl, rfl⟩ | ⟨-, hoth'⟩
    · refine ⟨by rw [hcha]; exact hft.here, by rw [Connection.user, hide]; exact hft.owner,
        hord, hjn, hlv, fun hstd => ?_,
        by rw [length_put hget, hvisi]; exact hft.visit⟩
      rw [hcha, hvisi]
      refine htr' conn ?_
      rcases htr hstd with hbef | htr0
      · exact fun entry hent => hft.turn hbef entry.1 entry.2 (State.mem_entries.mp hent)
      · exact htr0
    · have hft0 := hsound.fits sid' other hoth'
      exact ⟨hft0.here, hft0.owner, hft0.ordered, hft0.join, hft0.leave,
        fun hstd => htr' other fun entry hent =>
          hft0.turn hstd entry.1 entry.2 (State.mem_entries.mp hent),
        by rw [length_put hget]; exact hft0.visit⟩
  · obtain ⟨old1, hold1, -, hvis1, -⟩ := hold sid1 conn1 hget1
    obtain ⟨old2, hold2, -, hvis2, -⟩ := hold sid2 conn2 hget2
    exact hsound.visits sid1 sid2 old1 old2 hold1 hold2 (by rw [← hvis1, ← hvis2, heq])
  · rintro ⟨sid0, conn0, hget0, hli0⟩ sid1 conn1 hget1 hmax
    have hmax' : ∀ conn3 : Connection, conn3.visit = conn1.visit → ∀ sid2 old2,
        s.connections.get sid2 = some old2 → old2.visit ≤ conn3.visit := by
      intro conn3 hvisi3 sid2 old2 hold2
      obtain ⟨conn2, hget2, hvisi2⟩ := hnew sid2 old2 hold2
      rw [hvisi3, ← hvisi2]
      exact hmax sid2 conn2 hget2
    rcases State.get_put_cases hget0 with ⟨rfl, rfl⟩ | ⟨hsid0, hold0⟩
    · -- it is the moved one that is live
      have hli' : conn.live = true := by
        rcases hli with heq | ⟨hde, -⟩
        · exact heq ▸ hli0
        · rw [hde] at hli0
          cases hli0
      rcases State.get_put_cases hget1 with ⟨rfl, rfl⟩ | ⟨-, hold1⟩
      · exact hli0
      · exact hsound.newest ⟨sid0, conn, hget, hli'⟩ sid1 conn1 hold1 (hmax' conn1 rfl)
    · rcases State.get_put_cases hget1 with ⟨rfl, rfl⟩ | ⟨-, hold1⟩
      · rcases hli with heq | ⟨-, halo | ⟨sid2, other, hoth, hlt⟩⟩
        · rw [heq]
          exact hsound.newest ⟨sid0, conn0, hold0, hli0⟩ sid1 conn hget (hmax' conn hvisi.symm)
        · exact absurd (halo ⟨sid0, conn0⟩ (State.mem_entries.mpr hold0) hli0) hsid0
        · exact absurd hlt (Nat.not_lt.mpr (hmax' conn hvisi.symm sid2 other hoth))
      · exact hsound.newest ⟨sid0, conn0, hold0, hli0⟩ sid1 conn1 hold1 (hmax' conn1 rfl)

theorem Sound.quiet
    (hcon : r.vcConns = s.redis.vcConns) (hmbs : r.vcMembers = s.redis.vcMembers)
    (hpoin : r.pointers = s.redis.pointers)
    (hst : ∀ field, r.hasState ⟨user, server⟩ field = s.redis.hasState ⟨user, server⟩ field)
    (hstd : conn'.join = .waiting ↔ conn.join = .waiting)
    (hjoi : conn'.join = .done ↔ conn.join = .done)
    (hdn : conn'.leave = .done ↔ conn.leave = .done) :
    Sound server user ((s.withRedis r).put sid conn') := by
  refine hsound.put hget hsm hli hord hjn hlv (fun h => .inl (mt hstd.mpr h))
    hdn.mpr (fun id sid' identity hrec => ?_) (fun id => ?_)
    fun sid' other hoth hin hlat => ?_
  · rw [hcon] at hrec
    obtain ⟨other, hoth, hrs⟩ := hsound.recorded id sid' identity hrec
    rcases State.put_cases hget hoth with ⟨rfl, rfl⟩ | ⟨-, hkp⟩
    · refine ⟨conn', State.get_put_self, ?_⟩
      rw [hsm.1, hsm.2.1, ne_eq, ne_eq, hstd, hdn]
      exact hrs
    · exact ⟨other, hkp, hrs⟩
  · rw [hmbs, hsound.members]
    constructor
    · rintro ⟨sid', other, hoth, hid, hin⟩
      rcases State.put_cases hget hoth with ⟨rfl, rfl⟩ | ⟨-, hkp⟩
      · exact ⟨sid', conn', State.get_put_self, by rw [hsm.1, hid], hjoi.mpr hin.1, mt hdn.mp hin.2⟩
      · exact ⟨sid', other, hkp, hid, hin⟩
    · rintro ⟨sid', other, hoth, hid, hin⟩
      rcases State.get_put_cases hoth with ⟨rfl, rfl⟩ | ⟨-, hoth⟩
      · exact ⟨sid', conn, hget, by rw [← hsm.1, hid], hjoi.mp hin.1, mt hdn.mpr hin.2⟩
      · exact ⟨sid', other, hoth, hid, hin⟩
  · have hlat' := latest_of_put hlat hget hsm.2.2 hjoi.mpr
    simp only [hpoin, hst]
    rcases State.get_put_cases hoth with ⟨rfl, rfl⟩ | ⟨-, hoth⟩
    · rw [hsm.1]
      refine hsound.latest sid' conn hget ⟨hjoi.mp hin.1, mt hdn.mpr hin.2⟩ ?_
      intro sid1 conn1 hget1 hjn1
      rw [← hsm.2.2]
      exact hlat' sid1 conn1 hget1 hjn1
    · exact hsound.latest sid' other hoth hin hlat'

end

/-! ## The steps -/

theorem Fits.leave_eq (hft : Fits server user s conn) (hjn : conn.join ≠ .done) :
    conn.leave = .waiting := by
  by_contra hlv
  exact hjn (hft.ordered hlv).1

theorem Sound.connects (hsound : Sound server user s) (hfr : s.connections.get sid = none)
    (hhr : conn.channel.serverId = some server) (howne : conn.user = user)
    (hjn : conn.join = .waiting) (hlv : conn.leave = .waiting) (hli : conn.live = true)
    (hvisi : conn.visit = s.connections.keys.length) : Sound server user (s.put sid conn) := by
  have hlen : (s.put sid conn).connections.keys.length = s.connections.keys.length + 1 := by
    show (AList.insert sid conn s.connections).keys.length = _
    rw [AList.keys_insert, length_cons, List.erase_of_not_mem]
    exact AList.lookup_eq_none.mp hfr
  have hcas : ∀ {sid' other}, (s.put sid conn).connections.get sid' = some other →
      sid' = sid ∧ other = conn ∨ sid' ≠ sid ∧ s.connections.get sid' = some other :=
    State.get_put_cases (r := s.redis)
  have hsl : (s.put sid conn).connections.get sid = some conn := State.get_put_self (r := s.redis)
  have hnotInside : ¬ conn.inside := fun h => by
    rw [Connection.inside, hjn] at h
    cases h.1
  refine ⟨fun sid' other hoth => ?_, fun sid1 sid2 conn1 conn2 hget1 hget2 heq => ?_,
    hsound.removals, hsound.readers, fun id sid' identity hrec => ?_, fun id => ?_,
    fun _ sid1 conn1 hget1 hmax => ?_, fun sid' other hoth hin hlat => ?_⟩
  · rcases hcas hoth with ⟨rfl, rfl⟩ | ⟨-, hold⟩
    · exact ⟨hhr, howne, fun h => absurd hlv h, .inl hjn, .inl hlv, fun h => absurd hjn h, by omega⟩
    · have hft := hsound.fits sid' other hold
      refine ⟨hft.here, hft.owner, hft.ordered, hft.join, hft.leave,
        fun hstd sid1 conn1 hget1 hcha hlt => ?_, by have := hft.visit; omega⟩
      rcases hcas hget1 with ⟨rfl, rfl⟩ | ⟨-, hold1⟩
      · have := hft.visit
        omega
      · exact hft.turn hstd sid1 conn1 hold1 hcha hlt
  · rcases hcas hget1 with ⟨rfl, rfl⟩ | ⟨-, hold1⟩
    · rcases hcas hget2 with ⟨rfl, rfl⟩ | ⟨-, hold2⟩
      · rfl
      · have := (hsound.fits sid2 conn2 hold2).visit
        omega
    · rcases hcas hget2 with ⟨rfl, rfl⟩ | ⟨-, hold2⟩
      · have := (hsound.fits sid1 conn1 hold1).visit
        omega
      · exact hsound.visits sid1 sid2 conn1 conn2 hold1 hold2 heq
  · obtain ⟨other, hoth, hrs⟩ := hsound.recorded id sid' identity hrec
    exact ⟨other, State.get_put_of_free hfr hoth, hrs⟩
  · refine (hsound.members id).trans ⟨fun ⟨sid', other, hoth, hrs⟩ =>
      ⟨sid', other, State.get_put_of_free hfr hoth, hrs⟩, fun ⟨sid', other, hoth, hid, hin⟩ => ?_⟩
    rcases hcas hoth with ⟨rfl, rfl⟩ | ⟨-, hold⟩
    · exact absurd hin hnotInside
    · exact ⟨sid', other, hold, hid, hin⟩
  · rcases hcas hget1 with ⟨rfl, rfl⟩ | ⟨-, hold1⟩
    · exact hli
    · have hle := hmax sid conn hsl
      have := (hsound.fits sid1 conn1 hold1).visit
      omega
  · rcases hcas hoth with ⟨rfl, rfl⟩ | ⟨-, hold⟩
    · exact absurd hin hnotInside
    · exact hsound.latest sid' other hold hin fun sid1 conn1 hget1 => hlat sid1 conn1 (State.get_put_of_free hfr hget1)

section

variable (hsound : Sound server user s) (hget : s.connections.get sid = some conn)
include hsound hget

theorem Sound.disconnects (hmov : Alone s sid ∨
      ∃ entry ∈ s.connections.entries, entry.2.live = true ∧ conn.visit < entry.2.visit) :
    Sound server user (s.put sid { conn with live := false }) := by
  have hft := hsound.fits sid conn hget
  refine hsound.quiet (r := s.redis) hget ⟨rfl, rfl, rfl⟩ (.inr ⟨rfl, hmov.imp_right ?_⟩)
    (fun h => ⟨(hft.ordered h).1, rfl⟩) hft.join hft.leave rfl rfl rfl (fun _ => rfl) .rfl .rfl .rfl
  rintro ⟨entry, hent, -, hlt⟩
  exact ⟨entry.1, entry.2, State.mem_entries.mp hent, hlt⟩

theorem Sound.empty_of_turn (hjn : conn.join = .waiting) (htr : Turn s conn) {sid' : String}
    (hget' : s.connections.get sid' = some conn') (hcha : conn'.channel.id = conn.channel.id)
    (hstd : conn'.join ≠ .waiting) : conn'.leave = .done := by
  have hft := hsound.fits sid conn hget
  have hft' := hsound.fits sid' conn' hget'
  have heq := hft'.channel_eq hft hcha
  rcases lt_trichotomy conn'.visit conn.visit with hlt | hvisi | hlt
  · exact htr ⟨sid', conn'⟩ (State.mem_entries.mpr hget') heq hlt
  · obtain rfl := hsound.visits sid' sid conn' conn hget' hget hvisi
    cases hget.symm.trans hget'
    exact absurd hjn hstd
  · -- a later visit would have waited for this one
    have hdn := hft'.turn hstd sid conn hget heq.symm hlt
    rw [hft.leave_eq (hjn ▸ nofun)] at hdn
    cases hdn

theorem Sound.records
    (hjn : conn.join = .waiting) (htr : Turn s conn) : Sound server user (s.recorded sid conn) := by
  have hft := hsound.fits sid conn hget
  have hlv := hft.leave_eq (hjn ▸ nofun)
  have hfst : (s.redis.recordVoiceConnection conn.channel conn.user sid conn.identity).2 = true := by
    rw [Store.recordVoiceConnection, not_eq_true', decide_eq_false_iff_not, hft.owner, hsound.members]
    rintro ⟨sid', other, hoth, hid, hjoi, hin⟩
    exact hin (hsound.empty_of_turn hget hjn htr hoth hid (hjoi ▸ nofun))
  rw [State.recorded, hfst]
  refine hsound.put hget ⟨rfl, rfl, rfl⟩ (.inl rfl) (fun h => absurd hlv h)
    (.inr (.inl rfl)) hft.leave (fun _ => .inr htr) id
    (fun id sid' identity hrec => ?_) (fun id => (hsound.members id).trans ?_)
    fun sid' other hoth hin hlat => ?_
  · have hins : (s.redis.recordVoiceConnection conn.channel conn.user sid conn.identity).1.vcConns.get
        (id, sid') = if (id, sid') = (conn.channel.id, sid) then some conn.identity
          else s.redis.vcConns.get (id, sid') := get_insert ..
    rw [hins] at hrec
    split_ifs at hrec with hkey
    · cases hkey
      cases hrec
      exact ⟨_, State.get_put_self, rfl, rfl, by simp, by simp [hlv]⟩
    · obtain ⟨other, hoth, hid, hide, hstd, hrs⟩ := hsound.recorded id sid' identity hrec
      rcases State.put_cases hget hoth with ⟨rfl, rfl⟩ | ⟨-, hkp⟩
      · exact absurd hjn hstd
      · exact ⟨other, hkp, hid, hide, hstd, hrs⟩
  · refine ⟨fun ⟨sid', other, hoth, hid, hin⟩ => ?_, fun ⟨sid', other, hoth, hid, hin⟩ => ?_⟩
    · rcases State.put_cases hget hoth with ⟨rfl, rfl⟩ | ⟨-, hkp⟩
      · exact absurd (hjn.symm.trans hin.1) nofun
      · exact ⟨sid', other, hkp, hid, hin⟩
    · rcases State.get_put_cases hoth with ⟨rfl, rfl⟩ | ⟨-, hold⟩
      · cases hin.1
      · exact ⟨sid', other, hold, hid, hin⟩
  · rcases State.get_put_cases hoth with ⟨rfl, rfl⟩ | ⟨-, hold⟩
    · cases hin.1
    · exact hsound.latest sid' other hold hin
        (latest_of_put hlat hget rfl fun h => absurd (hjn.symm.trans h) nofun)

theorem Sound.names
    {first : Bool} (hjn : conn.join = .setIdentity first) : Sound server user (s.named sid conn first) := by
  have hft := hsound.fits sid conn hget
  obtain rfl : first = true := by
    have hcas := hft.join
    rw [hjn] at hcas
    simpa using hcas
  refine hsound.quiet hget ⟨rfl, rfl, rfl⟩ (.inl rfl)
    (fun h => absurd (hft.leave_eq (hjn ▸ nofun)) h) (.inr (.inr (.inl rfl))) hft.leave rfl rfl rfl
    ?_ (by simp [hjn]) (by simp [hjn]) .rfl
  intro field
  cases field <;> rfl

theorem Sound.creates (hjn : conn.join = .create)
    (horde : ∀ entry ∈ s.connections.entries, conn.visit < entry.2.visit → entry.2.join ≠ .done) :
    Sound server user ((s.withRedis (s.redis.create conn.channel conn.user conn.joinedAt)).put sid
      { conn with join := .done }) := by
  have hft := hsound.fits sid conn hget
  have hlv := hft.leave_eq (hjn ▸ nofun)
  have hmb : ∀ id, (id, user) ∈ (s.redis.create conn.channel conn.user conn.joinedAt).vcMembers ↔
      id = conn.channel.id ∨ (id, user) ∈ s.redis.vcMembers := by
    simp [hft.owner]
  refine hsound.put hget ⟨rfl, rfl, rfl⟩ (.inl rfl) (fun h => absurd hlv h)
    (.inr (.inr (.inr rfl))) hft.leave (fun _ => .inl (hjn ▸ nofun)) id (fun id sid' identity hrec => ?_)
    (fun id => (hmb id).trans ?_) fun sid' other hoth hin hlat => ?_
  · obtain ⟨other, hoth, hid, hide, hstd, hrs⟩ := hsound.recorded id sid' identity hrec
    rcases State.put_cases hget hoth with ⟨rfl, rfl⟩ | ⟨-, hkp⟩
    · exact ⟨_, State.get_put_self, hid, hide, by simp, hrs⟩
    · exact ⟨other, hkp, hid, hide, hstd, hrs⟩
  · rw [hsound.members]
    constructor
    · rintro (rfl | ⟨sid', other, hoth, hid, hin⟩)
      · exact ⟨sid, _, State.get_put_self, rfl, rfl, by simp [hlv]⟩
      · rcases State.put_cases hget hoth with ⟨rfl, rfl⟩ | ⟨-, hkp⟩
        · exact absurd (hjn.symm.trans hin.1) nofun
        · exact ⟨sid', other, hkp, hid, hin⟩
    · rintro ⟨sid', other, hoth, hid, hin⟩
      rcases State.get_put_cases hoth with ⟨rfl, rfl⟩ | ⟨-, hold⟩
      · exact .inl hid.symm
      · exact .inr ⟨sid', other, hold, hid, hin⟩
  · rcases State.get_put_cases hoth with ⟨rfl, rfl⟩ | ⟨hsid, hold⟩
    · rw [← hft.key]
      refine ⟨?_, s.redis.create_hasState conn.channel conn.user conn.joinedAt⟩
      rw [Store.create_pointers, get_insert_self]
    · -- nobody after this visit has had a state created
      have hle := hlat sid { conn with join := .done } State.get_put_self rfl
      rcases Nat.lt_or_eq_of_le hle with hlt | heq
      · exact absurd hin.1 (horde ⟨sid', other⟩ (State.mem_entries.mpr hold) hlt)
      · exact absurd (hsound.visits sid' sid other conn hold hget heq.symm) hsid

variable {phase : LeavePhase}

theorem Sound.leaves (hmay : conn.mayLeave = true) {listed : List String}
    (htr : LeaveTurn s.redis listed sid conn conn.leave phase) :
    Sound server user (s.put sid { conn with leave := phase }) := by
  have hft := hsound.fits sid conn hget
  obtain ⟨hde, hjn⟩ : conn.live = false ∧ conn.join = .done := by
    simpa [Connection.mayLeave] using hmay
  generalize hlv : conn.leave = leave at htr
  have hcas := hft.leave
  rw [hlv] at hcas
  cases htr with
  | peeks =>
    exact hsound.quiet (r := s.redis) hget ⟨rfl, rfl, rfl⟩ (.inl rfl)
      (fun _ => ⟨hjn, hde⟩) hft.join (.inr (.inl rfl)) rfl rfl rfl (fun _ => rfl) .rfl .rfl (by simp [hlv])
  | foreign identity hrec huse =>
    obtain ⟨other, hoth, -, rfl, -⟩ := hsound.recorded _ sid identity hrec
    cases hget.symm.trans hoth
    exact absurd rfl huse
  | _ => simp at hcas

/-- **A leave.** The connection is the only one recorded, so the teardown runs; where another
channel has the state, the pointer names that one. -/
theorem Sound.tearsDown (hmay : conn.mayLeave = true) (hlv : conn.leave = .script)
    (hph : phase = .done ∨ phase = .readRecord ∧ ∃ foreign unknown,
      (s.redis.deleteVoiceState conn.channel conn.user (.connection sid)).2 =
        .ok ⟨.survivor, foreign, unknown⟩) : Sound server user (s.tornDown sid conn (.connection sid) phase) := by
  have hft := hsound.fits sid conn hget
  obtain ⟨hde, hjn⟩ : conn.live = false ∧ conn.join = .done := by
    simpa [Connection.mayLeave] using hmay
  have hwait : conn.join ≠ .waiting := fun h => by cases hjn.symm.trans h
  have hscr : conn.leave ≠ .done := fun h => by cases hlv.symm.trans h
  have hown : ∀ identity, s.redis.vcConns.get (conn.channel.id, sid) = some identity →
      identity.user = conn.user := by
    intro identity hrec
    obtain ⟨other, hoth, -, rfl, -⟩ := hsound.recorded _ sid identity hrec
    cases hget.symm.trans hoth
    rfl
  unfold State.tornDown
  rw [Store.deleteVoiceState_connection hown] at hph ⊢
  obtain ⟨conns, hfor, hcon⟩ := s.redis.forget_eq conn.channel conn.user [sid]
  have halo : ∀ sid' identity, conns.get (conn.channel.id, sid') = some identity →
      identity.user ≠ conn.user := by
    intro sid' identity hrec huse
    obtain ⟨hold, hnot⟩ := (hcon _ _ _).mp hrec
    obtain ⟨other, hoth, hid, -, hstd, hther⟩ := hsound.recorded _ sid' identity hold
    obtain rfl := hsound.one hoth hget hid hstd hwait hther hscr
    exact hnot ⟨rfl, List.mem_singleton_self _, huse⟩
  rw [hfor] at hph ⊢
  obtain ⟨sid', identity, hrec, huse, -⟩ | ⟨-, heq⟩ :=
    Store.tearDownLast_cases { s.redis with vcConns := conns } conn.channel conn.user
  · exact absurd huse (halo sid' identity hrec)
  rw [heq] at hph ⊢
  obtain rfl : phase = .done := by
    refine hph.resolve_right ?_
    rintro ⟨-, foreign, unknown, hans⟩
    have hcd := congrArg Teardown.code (ok.inj hans)
    unfold Store.tearDown at hcd
    dsimp only at hcd
    split_ifs at hcd
  have hgn : ∀ {sid' other}, ((s.withRedis (({ s.redis with vcConns := conns } : Store).tearDown
      conn.channel conn.user).1).put sid { conn with leave := .done }).connections.get sid' =
        some other → other.leave ≠ .done → sid' ≠ sid ∧ s.connections.get sid' = some other := by
    intro sid' other hoth hther
    rcases State.get_put_cases hoth with ⟨rfl, rfl⟩ | hold
    · exact absurd rfl hther
    · exact hold
  refine hsound.put hget ⟨rfl, rfl, rfl⟩ (.inl rfl) (fun _ => ⟨hjn, hde⟩) hft.join
    (.inr (.inr rfl)) (fun _ => .inl hwait) (fun _ => rfl)
    (fun id sid' identity hrec => ?_) (fun id => ?_) fun sid' other hoth hin hlat => ?_
  · rw [Store.tearDown_vcConns] at hrec
    obtain ⟨hold, hnot⟩ := (hcon _ _ _).mp hrec
    obtain ⟨other, hoth, hid, hide, hrs⟩ := hsound.recorded id sid' identity hold
    rcases State.put_cases hget hoth with ⟨rfl, rfl⟩ | ⟨-, hkp⟩
    · exact absurd ⟨hid.symm, List.mem_singleton_self _, hide ▸ rfl⟩ hnot
    · exact ⟨other, hkp, hid, hide, hrs⟩
  · rw [Store.tearDown_vcMembers, mem_filter, decide_eq_true_eq, hsound.members]
    constructor
    · rintro ⟨⟨sid', other, hoth, hid, hin⟩, hne⟩
      rcases State.put_cases hget hoth with ⟨rfl, rfl⟩ | ⟨-, hkp⟩
      · exact absurd (by rw [hid, hft.owner]) hne
      · exact ⟨sid', other, hkp, hid, hin⟩
    · rintro ⟨sid', other, hoth, hid, hin⟩
      obtain ⟨hsid, hold⟩ := hgn hoth hin.2
      have hwait' : other.join ≠ .waiting := fun h => by cases hin.1.symm.trans h
      refine ⟨⟨sid', other, hold, hid, hin⟩, fun heq => hsid ?_⟩
      obtain ⟨hcha, -⟩ := Prod.mk.inj heq
      exact hsound.one hold hget (hid.trans hcha) hwait' hwait hin.2 hscr
  · obtain ⟨hsid, hold⟩ := hgn hoth hin.2
    have hwait' : other.join ≠ .waiting := fun h => by cases hin.1.symm.trans h
    obtain ⟨hptr, hst⟩ := hsound.latest sid' other hold hin (latest_of_put hlat hget rfl id)
    have hoth' : other.channel.id ≠ conn.channel.id := fun hid => hsid
      (hsound.one hold hget hid hwait' hwait hin.2 hscr)
    obtain ⟨hpoin, hjoinedAt, hflag⟩ := @Store.tearDown_kept { s.redis with vcConns := conns }
      conn.channel conn.user _ (hft.key ▸ hptr) hoth'
    refine ⟨by rw [hpoin]; exact hptr, fun field => ?_⟩
    rw [← hst field]
    cases field with
    | joinedAt => exact congrArg (fun t => (Table.get t _).isSome) hjoinedAt
    | flag flag => exact congrArg (fun t => (Table.get t _).isSome) hflag

end

/-! ## Runs -/

/-- **What a step keeps.** -/
theorem Sound.step {action : Action} {s' : State} (hsound : Sound server user s)
    (hmov : Moving server user s action) (horde : InOrder s action)
    (hsp : Step true s action s') : Sound server user s' := by
  cases hsp with
  | connects sid channel identity createdAt hfr =>
    exact hsound.connects hfr hmov.1 hmov.2.1 rfl rfl rfl rfl
  | disconnects sid conn hget => exact hsound.disconnects hget (hmov conn hget)
  | records sid conn hget hjn => exact hsound.records hget hjn (hmov conn hget hjn)
  | names sid conn first hget hjn => exact hsound.names hget hjn
  | joins sid conn phase hget htr =>
    generalize hjn : conn.join = join at htr
    have hcas := (hsound.fits sid conn hget).join
    rw [hjn] at hcas
    cases htr <;> simp at hcas
  | begins sid conn hget hwhol => cases hwhol
  | creates sid conn hget hwhol hjn => exact hsound.creates hget hjn (horde conn hget hjn)
  | writes sid conn write left hget hjn =>
    have hcas := (hsound.fits sid conn hget).join
    rw [hjn] at hcas
    simp at hcas
  | leaves sid conn phase hget hmay htr => exact hsound.leaves hget hmay htr
  | tearsDown sid conn phase hget hmay hlv hph => exact hsound.tearsDown hget hmay hlv hph
  | drops sid conn stale hget hmay hlv =>
    have hcas := (hsound.fits sid conn hget).leave
    rw [hlv] at hcas
    simp at hcas
  | _ => exact hmov.elim

theorem sound_empty : Sound server user .empty :=
  ⟨by simp [State.empty], by simp [State.empty], fun _ => rfl, fun _ => rfl,
    by simp [State.empty, Store.empty], by simp [State.empty, Store.empty], by simp [State.empty],
    by simp [State.empty]⟩

theorem sound_of_run {history : List (State × Action)}
    (hrun : Run (exec true) (fun s action => Moving server user s action ∧ InOrder s action) .empty
      history s) : Sound server user s := by
  refine hrun.invariant (fun s action hadm hsound => ?_) sound_empty
  obtain hsm | hsp := exec_step true s action
  · rw [hsm]
    exact hsound
  · exact hsound.step hadm.1 hadm.2 hsp

/-- Every webhook has been handled. -/
def Handled (s : State) : Prop :=
  ∀ sid conn, s.connections.get sid = some conn →
    conn.join = .done ∧ (conn.live = false → conn.leave = .done)

def handled (s : State) : Bool :=
  s.connections.values.all fun conn =>
    decide (conn.join = .done) && (conn.live || conn.leave = .done)

theorem handled_of_all (h : handled s = true) : Handled s := by
  intro sid conn hget
  have hcn := all_eq_true.mp h conn (mem_values_of_get hget)
  simp only [and_eq_true, decide_eq_true_eq, or_eq_true] at hcn
  exact ⟨hcn.1, fun hde => hcn.2.resolve_left (by simp [hde])⟩

theorem Sound.last_of_alone (hsound : Sound server user s) (hget : s.connections.get sid = some conn)
    (hli : conn.live = true) (halo : Alone s sid) {sid' : String} {other : Connection}
    (hoth : s.connections.get sid' = some other) : other.visit ≤ conn.visit := by
  have hmem : (⟨sid, conn⟩ : Sigma fun _ : String => Connection) ∈ s.connections.entries :=
    State.mem_entries.mpr hget
  obtain ⟨last, hls⟩ : ∃ last, last ∈ s.connections.entries.argmax fun entry => entry.2.visit := by
    refine ne_none_iff_exists'.mp fun hno => ?_
    rw [List.argmax_eq_none] at hno
    rw [hno] at hmem
    cases hmem
  have hmax : ∀ sid'' conn'', s.connections.get sid'' = some conn'' → conn''.visit ≤ last.2.visit :=
    fun sid'' conn'' hget'' => List.le_of_mem_argmax
      (f := fun entry : Sigma fun _ : String => Connection => entry.2.visit)
      (State.mem_entries.mpr hget'') hls
  have hgetLast : s.connections.get last.1 = some last.2 :=
    State.mem_entries.mp (List.argmax_mem hls)
  have hlastLive := hsound.newest ⟨sid, conn, hget, hli⟩ last.1 last.2 hgetLast hmax
  have hsid : last.1 = sid := halo last (List.argmax_mem hls) hlastLive
  rw [hsid, hget] at hgetLast
  rw [some.inj hgetLast]
  exact hmax sid' other hoth

/-- **The state follows the user.** Where the states were created in the order of the visits, who
is live in one channel has a pointer to it and a state, and is a member of it and no other. -/
theorem state_follows_the_user {history : List (State × Action)}
    (hrun : Run (exec true) (fun s action => Moving server user s action ∧ InOrder s action) .empty
      history s) (hhandled : Handled s) (hget : s.connections.get sid = some conn)
    (hlive : conn.live = true) (halone : Alone s sid) :
    s.redis.pointers.get ⟨user, server⟩ = some conn.channel.id ∧
      (s.redis.getVoiceState conn.channel user).isSome ∧
        ∀ id, (id, user) ∈ s.redis.vcMembers ↔ id = conn.channel.id := by
  have hsound : Sound server user s := sound_of_run hrun
  have hfits := hsound.fits sid conn hget
  have hjoin : conn.join = .done := (hhandled sid conn hget).1
  have hstays : conn.leave ≠ .done := by
    intro hleave
    rw [(hfits.ordered (hleave ▸ nofun)).2] at hlive
    cases hlive
  obtain ⟨hpointer, hstate⟩ := hsound.latest sid conn hget ⟨hjoin, hstays⟩
    fun sid' other hother _ => hsound.last_of_alone hget hlive halone hother
  refine ⟨hpointer, Store.getVoiceState_isSome.mpr fun field _ => ?_, fun id => ?_⟩
  · have hkey := hfits.key
    rw [hfits.owner] at hkey
    rw [hkey]
    exact hstate field
  · rw [hsound.members]
    constructor
    · rintro ⟨sid', other, hother, rfl, -, hthere⟩
      have hlive' : other.live = true := by
        by_contra hdead
        exact hthere ((hhandled sid' other hother).2 (eq_false_iff.mpr hdead))
      obtain rfl := halone ⟨sid', other⟩ (State.mem_entries.mpr hother) hlive'
      rw [hget] at hother
      exact congrArg (fun c => c.channel.id) (some.inj hother).symm
    · rintro rfl
      exact ⟨sid, conn, hget, rfl, hjoin, hstays⟩

/-! ## A late join -/

def lobby : UserVoiceChannel := ⟨"lobby", some "server"⟩

def stage : UserVoiceChannel := ⟨"stage", some "server"⟩

/-- A user moves from the lobby to the stage, and the handlers come in that order. -/
def moved : List Action :=
  [.connect "a" lobby ⟨"user", none⟩ 1, .joined "a", .joined "a", .joined "a",
    .connect "b" stage ⟨"user", none⟩ 2, .disconnect "a", .joined "b", .joined "b", .joined "b",
    .left "a", .left "a"]

theorem state_follows_the_user_moved :
    (execAll (exec true) .empty moved).redis.pointers.get ⟨"user", "server"⟩ = some "stage" := by
  have hrun : Run (exec true) (fun s action => Moving "server" "user" s action ∧ InOrder s action)
      .empty _ (execAll (exec true) .empty moved) := Run.of_admitsAll (by decide)
  have hhandled : Handled (execAll (exec true) .empty moved) := handled_of_all (by decide)
  have hget : (execAll (exec true) .empty moved).connections.get "b" = some
      ⟨stage, ⟨"user", none⟩, 2, 1, true, .done, .waiting⟩ := by decide
  exact (state_follows_the_user hrun hhandled hget rfl (by decide)).1

/-- The handler of the join of the lobby comes when the user is on the stage. -/
def joinedLate : List Action :=
  [.connect "a" lobby ⟨"user", none⟩ 1, .connect "b" stage ⟨"user", none⟩ 2, .disconnect "a",
    .joined "b", .joined "b", .joined "b", .joined "a", .joined "a", .joined "a", .left "a",
    .left "a"]

theorem late_join_takes_the_state_away :
    ¬ ∀ (history : List (State × Action)) (s : State) (sid : String) (conn : Connection),
      Run (exec true) (Moving "server" "user") .empty history s → Handled s →
        s.connections.get sid = some conn → conn.live = true → Alone s sid →
          (s.redis.getVoiceState conn.channel "user").isSome := by
  intro hclaim
  have hrun : Run (exec true) (Moving "server" "user") .empty _
      (execAll (exec true) .empty joinedLate) := Run.of_admitsAll (by decide)
  have hget : (execAll (exec true) .empty joinedLate).connections.get "b" = some
      ⟨stage, ⟨"user", none⟩, 2, 1, true, .done, .waiting⟩ := by decide
  have hstate := hclaim _ _ "b" _ hrun (handled_of_all (by decide)) hget rfl (by decide)
  exact absurd hstate (by decide)

end Moves
end SlogaBackend.Voice
