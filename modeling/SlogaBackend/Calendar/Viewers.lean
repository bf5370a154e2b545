import SlogaBackend.Calendar.Edits
import SlogaBackend.Permissions.Evaluation

/-!
# Who may view an event

A viewer answers whether a user may view one event after another, and keeps what it has looked up:
the servers, and for each channel the server that governs it and the verdict. What it keeps is
what it would look up again (`Coherent`), so that its answers do not depend on those before. Its
member rows are those it was built with.
-/

namespace SlogaBackend.Calendar

open Permissions DatabasePermissionQuery

/-! ## Channels -/

/-- `permission_target`: a thread is judged by its parent. -/
def permissionTarget (db : Permissions.Database) : Channel → Option Channel
  | .thread _ _ parentChannel =>
    match db.channels.findOne parentChannel with
    | some (.textChannel id server defaults roles) => some (.textChannel id server defaults roles)
    | some (.forum id server defaults roles) => some (.forum id server defaults roles)
    | _ => none
  | channel => some channel

def resolveEventChannelTarget (db : Permissions.Database) (channel : Channel) : Option Channel :=
  match permissionTarget db channel with
  | some target =>
    if serverOf target = none ∨ serverOf target ≠ serverOf channel then none else some target
  | none => none

def userCanViewChannel (db : Permissions.Database) (user : User) (serverId : String)
    (target : Channel) : Bool :=
  match target with
  | .thread _ _ _ => false
  | target =>
    if serverOf target ≠ some serverId then false
    else
      match db.members.findOne (serverId, user.id) with
      | none => false
      | some member =>
        if member.server ≠ serverId ∨ member.user ≠ user.id then false
        else (calculateChannelPermissions.run (((new db user).withMember member).withChannel
          target)).1.hasChannelPermission .viewChannel

/-! ## The viewer -/

structure EventViewer where
  members : Table String Member
  /-- `none` for a server that was not found. -/
  servers : Table String (Option Server)
  /-- The server that governs a channel, and the verdict; `none` for an unresolved channel. -/
  channels : Table String (Option (String × Bool))

namespace EventViewer

def withMemberships (user : User) (members : List Member) : EventViewer :=
  ⟨(∅ : Table String Member).insertAll Member.server
    (members.filter fun member => member.user = user.id), ∅, ∅⟩

def forServer (db : Permissions.Database) (user : User) (serverId : String) : EventViewer :=
  withMemberships user (db.members.findOne (serverId, user.id)).toList

section Calls

variable (db : Permissions.Database) (user : User)

/-- Fetch a server that has not been fetched. -/
def keepServer (viewer : EventViewer) (serverId : String) : EventViewer :=
  if viewer.servers.get serverId = none then
    { viewer with servers := viewer.servers.insert serverId (db.servers.findOne serverId) }
  else viewer

def resolveChannel (viewer : EventViewer) (channelId : String) :
    Option (String × Bool) × EventViewer :=
  match (db.channels.findOne channelId).bind (resolveEventChannelTarget db) with
  | none => (none, viewer)
  | some target =>
    match serverOf target with
    | none => (none, viewer)
    | some serverId =>
      if viewer.members.get serverId = none then (some (serverId, false), viewer)
      else
        let viewer := viewer.keepServer db serverId
        let verdict :=
          match viewer.servers.get serverId, viewer.members.get serverId with
          | some (some server), some member =>
            server.id = serverId && member.server = serverId &&
              (calculateChannelPermissions.run ((((new db user).withServer server).withMember
                member).withChannel target)).1.hasChannelPermission .viewChannel
          | _, _ => false
        (some (serverId, verdict), viewer)

/-- Resolve a channel that has not been resolved. -/
def keepVerdict (viewer : EventViewer) (channelId : String) : EventViewer :=
  if viewer.channels.get channelId = none then
    let (resolved, viewer) := viewer.resolveChannel db user channelId
    { viewer with channels := viewer.channels.insert channelId resolved }
  else viewer

def canView (viewer : EventViewer) (event : CalendarEvent) : Bool × EventViewer :=
  if viewer.members.get event.server = none then (false, viewer)
  else
    match event.channel with
    | none => (true, viewer)
    | some channelId =>
      let viewer := viewer.keepVerdict db user channelId
      -- the server is compared on every call
      (viewer.channels.get channelId = some (some (event.server, true)), viewer)

/-- The answers to one call after another. -/
def answers : EventViewer → List CalendarEvent → List Bool
  | _, [] => []
  | viewer, event :: events =>
    (viewer.canView db user event).1 :: answers (viewer.canView db user event).2 events

end Calls

end EventViewer

/-! ## The check without a viewer -/

/-- The server that governs a channel, and whether the user may view it there. -/
def channelVerdict (db : Permissions.Database) (user : User) (channelId : String) :
    Option (String × Bool) :=
  ((db.channels.findOne channelId).bind (resolveEventChannelTarget db)).bind fun target =>
    (serverOf target).map fun serverId => (serverId, userCanViewChannel db user serverId target)

/-- The event has no channel, or its channel resolves to one that the user may view. -/
def channelAllows (db : Permissions.Database) (user : User) (event : CalendarEvent) : Bool :=
  match event.channel with
  | none => true
  | some channelId =>
    ((db.channels.findOne channelId).bind (resolveEventChannelTarget db)).any
      (userCanViewChannel db user event.server)

section Answers

variable {db : Permissions.Database} {user : User} {channelId : String} {target : Channel}

theorem permissionTarget_spec {channel : Channel}
    (htgt : permissionTarget db channel = some target) :
    (target = channel ∨ ∃ id, db.channels.findOne id = some target) ∧
      ∀ id server parent, target ≠ .thread id server parent := by
  cases channel with
  | thread id server parentChannel =>
    simp only [permissionTarget] at htgt
    split at htgt
    · rename_i hpar
      rw [htgt] at hpar
      cases htgt
      exact ⟨.inr ⟨parentChannel, hpar⟩, nofun⟩
    · rename_i hpar
      rw [htgt] at hpar
      cases htgt
      exact ⟨.inr ⟨parentChannel, hpar⟩, nofun⟩
    · cases htgt
  | _ =>
    cases htgt
    exact ⟨.inl rfl, nofun⟩

/-- A channel resolves to one that is stored, is no thread and has a server. -/
theorem resolve_spec (hres : (db.channels.findOne channelId).bind
      (resolveEventChannelTarget db) = some target) :
    (∃ id, db.channels.findOne id = some target) ∧ (∃ serverId, serverOf target = some serverId) ∧
      ∀ id server parent, target ≠ .thread id server parent := by
  obtain ⟨channel, hch, htgt⟩ := bind_eq_some_iff.mp hres
  unfold resolveEventChannelTarget at htgt
  split at htgt
  · rename_i hfnd
    split at htgt
    · cases htgt
    · rename_i hsrv
      cases htgt
      obtain ⟨hsto, hthr⟩ := permissionTarget_spec hfnd
      refine ⟨?_, ne_none_iff_exists'.mp fun hno => hsrv (.inl hno), hthr⟩
      rcases hsto with rfl | hsto
      · exact ⟨channelId, hch⟩
      · exact hsto
  · cases htgt

/-- With the server at hand or without, the calculation comes to the same. -/
theorem userCanViewChannel_eq {serverId : String} {server : Server} {member : Member}
    (htgt : serverOf target = some serverId)
    (hthr : ∀ id server parent, target ≠ .thread id server parent)
    (hsrv : db.servers.findOne serverId = some server)
    (hmb : db.members.findOne (serverId, user.id) = some member) :
    userCanViewChannel db user serverId target =
      (calculateChannelPermissions.run ((((new db user).withServer server).withMember
        member).withChannel target)).1.hasChannelPermission .viewChannel := by
  have hid : server.id = serverId := key_of_findOne hsrv
  have hkey : member.id = (serverId, user.id) := key_of_findOne hmb
  have hky : member.server = serverId ∧ member.user = user.id := Prod.ext_iff.mp hkey
  have hfet : (((new db user).withMember member).withChannel target).fetchServer =
      { ((new db user).withMember member).withChannel target with server := some server } := by
    simp [fetchServer, new, withMember, withChannel, htgt, hsrv]
  have hcac : ((((new db user).withServer server).withMember member).withChannel
      target).fetchServer = { (((new db user).withServer server).withMember member).withChannel
        target with server := some server } := by
    simp [fetchServer, new, withServer, withMember, withChannel, htgt, hid]
  rw [run_calculateChannelPermissions rfl htgt hcac]
  unfold userCanViewChannel
  split
  · exact absurd rfl (hthr _ _ _)
  · rw [if_neg (by simp [htgt]), hmb]
    dsimp only
    rw [if_neg (by simp [hky]), run_calculateChannelPermissions rfl htgt hfet]
    rfl

/-- What a viewer keeps is what it would look up. -/
structure Coherent (db : Permissions.Database) (user : User) (viewer : EventViewer) : Prop where
  members : ∀ id member, viewer.members.get id = some member →
    db.members.findOne (id, user.id) = some member
  servers : ∀ id server, viewer.servers.get id = some server → server = db.servers.findOne id
  channels : ∀ id verdict, viewer.channels.get id = some verdict →
    verdict = (channelVerdict db user id).map fun entry =>
      (entry.1, (viewer.members.get entry.1).isSome && entry.2)

namespace EventViewer

variable {viewer : EventViewer} (hcoherent : Coherent db user viewer)
include hcoherent

theorem keepServer_spec (serverId : String) : Coherent db user (viewer.keepServer db serverId) ∧
      (viewer.keepServer db serverId).members = viewer.members ∧
      (viewer.keepServer db serverId).servers.get serverId =
        some (db.servers.findOne serverId) := by
  unfold keepServer
  split
  · refine ⟨⟨hcoherent.members, fun id server hg => ?_, hcoherent.channels⟩, rfl, ?_⟩
    · rw [get_insert] at hg
      split at hg
      · rename_i hid
        rw [hid, some.inj hg]
      · exact hcoherent.servers id server hg
    · exact get_insert_self
  · rename_i hkp
    obtain ⟨server, hsrv⟩ := ne_none_iff_exists'.mp hkp
    exact ⟨hcoherent, rfl, hcoherent.servers serverId server hsrv ▸ hsrv⟩

variable (hservers : ∀ id channel serverId, db.channels.findOne id = some channel →
    serverOf channel = some serverId → (db.servers.findOne serverId).isSome)
include hservers

theorem resolveChannel_spec (channelId : String) : (viewer.resolveChannel db user channelId).1 =
      ((channelVerdict db user channelId).map fun entry =>
        (entry.1, (viewer.members.get entry.1).isSome && entry.2)) ∧
    Coherent db user (viewer.resolveChannel db user channelId).2 ∧
    (viewer.resolveChannel db user channelId).2.members = viewer.members := by
  unfold resolveChannel channelVerdict
  cases hres : (db.channels.findOne channelId).bind (resolveEventChannelTarget db) with
  | none => exact ⟨rfl, hcoherent, rfl⟩
  | some target =>
    obtain ⟨⟨id, hsto⟩, ⟨serverId, hserverId⟩, hthr⟩ := resolve_spec hres
    simp only [bind_some, hserverId, map_some]
    cases hmb : viewer.members.get serverId with
    | none => exact ⟨rfl, hcoherent, rfl⟩
    | some member =>
      obtain ⟨server, hsrv⟩ := isSome_iff_exists.mp (hservers id target serverId hsto hserverId)
      have hrow := hcoherent.members serverId member hmb
      have hid : server.id = serverId := key_of_findOne hsrv
      have hkey : member.id = (serverId, user.id) := key_of_findOne hrow
      obtain ⟨hkp, hmbs, hg⟩ := keepServer_spec hcoherent serverId
      rw [if_neg (by simp), userCanViewChannel_eq hserverId hthr hsrv hrow, hmbs, hg, hsrv, hmb]
      refine ⟨?_, hkp, rfl⟩
      simp [hid, show member.server = serverId from congrArg Prod.fst hkey]

theorem keepVerdict_spec (channelId : String) :
    Coherent db user (viewer.keepVerdict db user channelId) ∧
      (viewer.keepVerdict db user channelId).members = viewer.members ∧
      (viewer.keepVerdict db user channelId).channels.get channelId =
        some ((channelVerdict db user channelId).map fun entry =>
          (entry.1, (viewer.members.get entry.1).isSome && entry.2)) := by
  unfold keepVerdict
  split
  · obtain ⟨hreso, haft, hmbs⟩ := resolveChannel_spec hcoherent hservers channelId
    refine ⟨⟨haft.members, haft.servers, fun id verdict hg => ?_⟩, hmbs, ?_⟩
    · rw [get_insert] at hg
      split at hg
      · rename_i hid
        rw [← some.inj hg, hid, hreso]
        dsimp only
        rw [hmbs]
      · exact haft.channels id verdict hg
    · rw [← hreso]
      exact get_insert_self
  · rename_i hkp
    obtain ⟨verdict, hver⟩ := ne_none_iff_exists'.mp hkp
    exact ⟨hcoherent, rfl, hcoherent.channels channelId verdict hver ▸ hver⟩

theorem canView_spec (event : CalendarEvent) : (viewer.canView db user event).1 =
      ((viewer.members.get event.server).isSome && channelAllows db user event) ∧
    Coherent db user (viewer.canView db user event).2 ∧
    (viewer.canView db user event).2.members = viewer.members := by
  unfold canView channelAllows
  cases hmb : viewer.members.get event.server with
  | none => exact ⟨rfl, hcoherent, rfl⟩
  | some member =>
    rw [if_neg (by simp)]
    cases event.channel with
    | none => exact ⟨rfl, hcoherent, rfl⟩
    | some channelId =>
      obtain ⟨hkp, hmbs, hg⟩ := keepVerdict_spec hcoherent hservers channelId
      refine ⟨?_, hkp, hmbs⟩
      dsimp only
      rw [hg]
      unfold channelVerdict
      cases hres : (db.channels.findOne channelId).bind (resolveEventChannelTarget db) with
      | none => rfl
      | some target =>
        obtain ⟨-, ⟨serverId, hserverId⟩, -⟩ := resolve_spec hres
        simp only [bind_some, hserverId, map_some, any_some]
        by_cases hsrv : serverId = event.server
        · subst hsrv
          simp [hmb]
        · -- a channel of another server
          have hoth : userCanViewChannel db user event.server target = false := by
            unfold userCanViewChannel
            split
            · rfl
            · exact if_pos (by simp [hserverId, hsrv])
          simp [hsrv, hoth]

omit hcoherent in
theorem answers_eq (events : List CalendarEvent) : ∀ {viewer}, Coherent db user viewer →
    viewer.answers db user events = events.map fun event =>
      (viewer.members.get event.server).isSome && channelAllows db user event := by
  induction events with
  | nil => exact fun _ => rfl
  | cons event events ih =>
    intro viewer hcoherent
    obtain ⟨hans, haft, hmbs⟩ := canView_spec hcoherent hservers event
    rw [answers, ih haft, hmbs, hans, map_cons]

end EventViewer

theorem isSome_get_insertAll (key : Member → String) (members : List Member) (id : String) :
    ∀ t : Table String Member, ((t.insertAll key members).get id).isSome =
      ((t.get id).isSome || members.any fun member => key member = id) := by
  induction members with
  | nil => simp [Table.insertAll]
  | cons member members ih =>
    intro t
    rw [Table.insertAll_cons, ih, get_insert, List.any_cons]
    by_cases hkey : id = key member
    · simp [hkey]
    · simp [hkey, Ne.symm hkey]

section

variable (hservers : ∀ id channel serverId, db.channels.findOne id = some channel →
  serverOf channel = some serverId → (db.servers.findOne serverId).isSome)
include hservers

theorem answers_withMemberships {members : List Member}
    (hmembers : ∀ member ∈ members, db.members.findOne member.id = some member)
    (events : List CalendarEvent) :
    (EventViewer.withMemberships user members).answers db user events = events.map fun event =>
      members.any (fun member => member.user = user.id && member.server = event.server) &&
        channelAllows db user event := by
  have hget : ∀ id, ((EventViewer.withMemberships user members).members.get id).isSome =
      members.any fun member => member.user = user.id && member.server = id := by
    intro id
    unfold EventViewer.withMemberships
    rw [isSome_get_insertAll, List.any_filter]
    rfl
  have hcoherent : Coherent db user (EventViewer.withMemberships user members) := by
    refine ⟨fun id member hget => ?_, nofun, nofun⟩
    rcases get_insertAll_cases hget with ⟨hmem, rfl⟩ | ⟨hnone, -⟩
    · obtain ⟨hmem, huser⟩ := mem_filter.mp hmem
      rw [← of_decide_eq_true huser]
      exact hmembers member hmem
    · cases hnone
  simp only [EventViewer.answers_eq hservers events hcoherent, hget]

/-- **The answers of a viewer are those of the check without one**, for the servers of which the
viewer was given the member row of the user. The viewer of one server knows that server alone. -/
theorem viewer_answers_eq :
    (∀ members : List Member, (∀ member ∈ members, db.members.findOne member.id = some member) →
      ∀ events, (EventViewer.withMemberships user members).answers db user events =
        events.map fun event =>
          members.any (fun member => member.user = user.id && member.server = event.server) &&
            channelAllows db user event) ∧
    ∀ serverId events, (EventViewer.forServer db user serverId).answers db user events =
      events.map fun event => (db.members.findOne (serverId, user.id)).isSome &&
        decide (event.server = serverId) && channelAllows db user event := by
  refine ⟨fun members hmembers => answers_withMemberships hservers hmembers,
    fun serverId events => ?_⟩
  unfold EventViewer.forServer
  cases hrow : db.members.findOne (serverId, user.id) with
  | none =>
    rw [answers_withMemberships hservers (by simp)]
    rfl
  | some member =>
    have hkey : member.id = (serverId, user.id) := key_of_findOne hrow
    obtain ⟨hserver, huser⟩ := Prod.mk.inj hkey
    rw [answers_withMemberships hservers fun member' hmem => ?_]
    · simp [hserver, huser, eq_comm]
    · rw [mem_singleton.mp hmem, hkey]
      exact hrow

end

end Answers

/-! ## Two servers -/

namespace TwoServers

def member (server : String) : Member := ⟨server, "U", [], none, true, true⟩

def user : User := ⟨"U", false, none, []⟩

def server (id : String) (defaultPermissions : BitVec 64) : Server :=
  ⟨id, "O", [], Collection.empty, defaultPermissions⟩

/-- The user is a member of both servers, and may view the channels of the first. -/
def db : Permissions.Database where
  users := Collection.empty
  servers := (Collection.empty.put (server "S" (.allOnes 64))).put (server "T" 0)
  channels := (Collection.empty.put (.textChannel "CS" "S" none ∅)).put
    (.textChannel "CT" "T" none ∅)
  members := (Collection.empty.put (member "S")).put (member "T")
  now := 0

def event (server : String) (channel : Option String) : CalendarEvent :=
  { dailyEvent firstPass with server, channel }

end TwoServers

open TwoServers

theorem servers_exist (id : String) (channel : Channel) (serverId : String)
    (hchannel : TwoServers.db.channels.findOne id = some channel)
    (hserver : serverOf channel = some serverId) :
    (TwoServers.db.servers.findOne serverId).isSome := by
  simp only [TwoServers.db, Collection.findOne_put] at hchannel
  split at hchannel
  · cases hchannel
    cases hserver
    decide
  · split at hchannel
    · cases hchannel
      cases hserver
      decide
    · cases hchannel

/-- A channel that is viewed, one that is not, the second asked for as a channel of the first
server, and the first once more. -/
theorem viewer_answers_eq_two_servers :
    (EventViewer.withMemberships user [member "S", member "T"]).answers db user
      [event "S" "CS", event "T" "CT", event "S" "CT", event "S" "CS", event "T" none] =
        [true, false, false, true, true] :=
  ((viewer_answers_eq servers_exist).1 _ (by decide) _).trans (by decide)

/-- The viewer for one server does not show the events of the other. -/
theorem viewer_of_one_server : ¬∀ (db : Permissions.Database) (user : User) (server : String)
    (events : List CalendarEvent),
    (∀ id channel serverId, db.channels.findOne id = some channel →
      serverOf channel = some serverId → (db.servers.findOne serverId).isSome) →
    (EventViewer.forServer db user server).answers db user events = events.map fun event =>
        (db.members.findOne (event.server, user.id)).isSome && channelAllows db user event := by
  intro hall
  exact absurd (hall db user "S" [event "T" none] servers_exist) (by decide)

end SlogaBackend.Calendar
