import SlogaBackend.Lib.Watched
import SlogaBackend.RemoteControl.Requests

/-!
# Where a request is

A request accepts a grant or ends some, and where it is in that follows from its own calls: the
`Phase`. `Allowed` lists what it calls in which phase. Whoever ends a grant has read it, and what
can be read was claimed by the accept with the number of the grant (`Sourced`).
-/

namespace SlogaBackend.RemoteControl

open Prog

/-- How far an accept has come with its grant. -/
inductive Stage where
  /-- The record is there. -/
  | claimed
  /-- And in the expiry index. -/
  | indexed
  /-- The controller is busy. -/
  | refused
  | unindexed
  | withdrawn
  /-- The controller's pointer is the grant's. -/
  | owning
  /-- And the pointer of the id. -/
  | pointed
  /-- And the sharer is listed: the grant is created. -/
  | created
  /-- The capability was pushed. -/
  | granted
  /-- The pointer of the id was there after that. -/
  | rechecking
  /-- The record was gone. -/
  | raced
  | accepted
  | undone
  deriving DecidableEq

/-- How far somebody has come who ends a grant. -/
inductive EndStage where
  | revoked
  | deleted
  | unlisted
  deriving DecidableEq

inductive Phase where
  | start
  /-- An accept with the id of its grant. -/
  | named (id : ℕ)
  /-- The sharer is busy. -/
  | busy
  | accept (stage : Stage) (grant : Grant)
  | ending (stage : EndStage) (grant : Grant)
  deriving DecidableEq

namespace Phase

def move (phase : Phase) (stage : Stage) : Phase :=
  match phase with
  | accept _ grant => accept stage grant
  | _ => phase

/-- The phase after a call. -/
def after (phase : Phase) : (c : Call) → Reply c → Phase
  | .newUlid, id => named id
  | .setNxGrant grant, claimed => if claimed then accept .claimed grant else busy
  | .zadd .., _ =>
    match phase with
    | accept _ grant => accept .indexed grant
    | _ => phase
  | .setNxController .., claimed => phase.move (if claimed then .owning else .refused)
  | .zrem _, _ =>
    match phase with
    | accept _ grant => accept .unindexed grant
    | _ => start
  | .delGrant _, _ => phase.move .withdrawn
  | .setGrantId .., _ => phase.move .pointed
  | .saddGrant _, _ => phase.move .created
  | .updatePermissions grant canPublishData, _ =>
    match phase with
    | accept _ grant => accept (if canPublishData then .granted else .undone) grant
    | _ => ending .revoked grant
  | .getGrantId _, pointer => phase.move (if pointer.isSome then .rechecking else .raced)
  | .getGrant _, found =>
    match phase with
    | accept _ grant =>
      accept (if found.any fun other => other.id = grant.id then .accepted else .raced) grant
    | _ => phase
  | .delRecords grant, _ => ending .deleted grant
  | .sremGrant _, _ =>
    match phase with
    | ending _ grant => ending .unlisted grant
    | _ => phase
  | _, _ => phase

/-- A request that is here may end here. -/
def rests : Phase → Bool
  | start => true
  | busy => true
  | accept .withdrawn _ => true
  | accept .accepted _ => true
  | accept .undone _ => true
  | _ => false

end Phase

/-- The phase of a request, and the grants it has read. -/
structure Local where
  phase : Phase
  known : List Grant

def Call.looks : Call → Bool
  | .getChannelNode _ => true
  | .getController _ => true
  | .existsGrants _ => true
  | .smembersGrants _ => true
  | .zrangeByScore _ => true
  | _ => false

/-- What a request calls, by its phase. -/
inductive Allowed : Local → Call → Prop where
  | looks (l : Local) (c : Call) : c.looks = true → Allowed l c
  | fetches (known : List Grant) (key : GrantKey) : Allowed ⟨.start, known⟩ (.getGrant key)
  | follows (known : List Grant) (id : ℕ) : Allowed ⟨.start, known⟩ (.getGrantId id)
  | names (known : List Grant) : Allowed ⟨.start, known⟩ .newUlid
  | claims (known : List Grant) (grant : Grant) :
      Allowed ⟨.named grant.id, known⟩ (.setNxGrant grant)
  | indexes (known : List Grant) (grant : Grant) (score : Int) :
      Allowed ⟨.accept .claimed grant, known⟩ (.zadd grant.expiryMember score)
  | owns (known : List Grant) (grant : Grant) :
      Allowed ⟨.accept .indexed grant, known⟩ (.setNxController grant.controllerId grant.key)
  | unindexes (known : List Grant) (grant : Grant) :
      Allowed ⟨.accept .refused grant, known⟩ (.zrem grant.expiryMember)
  | withdraws (known : List Grant) (grant : Grant) :
      Allowed ⟨.accept .unindexed grant, known⟩ (.delGrant grant.key)
  | points (known : List Grant) (grant : Grant) :
      Allowed ⟨.accept .owning grant, known⟩ (.setGrantId grant.id grant.key)
  | lists (known : List Grant) (grant : Grant) :
      Allowed ⟨.accept .pointed grant, known⟩ (.saddGrant grant.key)
  | grants (known : List Grant) (grant : Grant) :
      Allowed ⟨.accept .created grant, known⟩ (.updatePermissions grant true)
  | rechecks (known : List Grant) (grant : Grant) :
      Allowed ⟨.accept .granted grant, known⟩ (.getGrantId grant.id)
  | rereads (known : List Grant) (grant : Grant) (key : GrantKey) :
      Allowed ⟨.accept .rechecking grant, known⟩ (.getGrant key)
  | undoes (known : List Grant) (grant : Grant) :
      Allowed ⟨.accept .raced grant, known⟩ (.updatePermissions grant false)
  | revokes (known : List Grant) (grant : Grant) : grant ∈ known →
      Allowed ⟨.start, known⟩ (.updatePermissions grant false)
  | deletes (known : List Grant) (grant : Grant) :
      Allowed ⟨.ending .revoked grant, known⟩ (.delRecords grant)
  | unlists (known : List Grant) (grant : Grant) :
      Allowed ⟨.ending .deleted grant, known⟩ (.sremGrant grant.key)
  | ends (known : List Grant) (grant : Grant) :
      Allowed ⟨.ending .unlisted grant, known⟩ (.zrem grant.expiryMember)
  /-- A heartbeat. -/
  | beats (known : List Grant) (grant : Grant) (score : Int) : grant ∈ known →
      Allowed ⟨.start, known⟩ (.zadd grant.expiryMember score)
  | ejects (known : List Grant) (channel identity : String) :
      Allowed ⟨.start, known⟩ (.removeIdentity channel identity)
  /-- The reaper drops a member. -/
  | drops (known : List Grant) (member : ExpiryMember) : Allowed ⟨.start, known⟩ (.zrem member)

/-- What a call teaches. -/
def Local.note (l : Local) (c : Call) (answer : Reply c) : Local where
  phase := l.phase.after c answer
  known :=
    match c, answer with
    | .getGrant _, found => found.toList ++ l.known
    | _, _ => l.known

def conduct : Discipline Call Reply Local where
  init := ⟨.start, []⟩
  note := Local.note
  allowed := Allowed
  possible _ _ := True

/-! ## The requests obey -/

section Obeys

variable {known : List Grant}

/-- The request is at the start again, and has forgotten nothing. -/
def AtStart (known : List Grant) (l : Local) : Prop := l.phase = .start ∧ ∀ g ∈ known, g ∈ l.known

theorem AtStart.eq {l : Local} (h : AtStart known l) : l = ⟨.start, l.known⟩ := by
  obtain ⟨phase, known'⟩ := l
  obtain rfl : phase = .start := h.1
  rfl

theorem obeys_end {grant : Grant} (hkn : grant ∈ known) :
    (endRemoteControlGrant grant).Obeys conduct (fun l _ => l = ⟨.start, known⟩) ⟨.start, known⟩ :=
  ⟨.revokes known grant hkn, fun _ _ => ⟨.deletes known grant, fun _ _ =>
    ⟨.unlists known grant, fun _ _ => ⟨.ends known grant, fun _ _ => rfl⟩⟩⟩⟩

/-- The grant that a fetch finds is known after it. -/
def Fetched (known : List Grant) (l : Local) (result : Except ControlError (Option Grant)) : Prop :=
  AtStart known l ∧ ∀ grant, result = .ok (some grant) → grant ∈ l.known

theorem obeys_fetch (channel sharer : String) :
    (fetchRemoteControlGrant channel sharer).Obeys conduct (Fetched known) ⟨.start, known⟩ := by
  refine ⟨.fetches known _, fun found _ => ⟨⟨rfl, fun g hg => mem_append_right _ hg⟩, ?_⟩⟩
  intro grant heq
  obtain rfl : found = some grant := ok.inj heq
  exact mem_append_left _ mem_cons_self

variable {found : Option Grant}

theorem fetched_filter {p : Grant → Bool} {key : GrantKey} :
    Fetched known (conduct.note ⟨.start, known⟩ (.getGrant key) found) (.ok (found.filter p)) := by
  refine ⟨⟨rfl, fun g hg => mem_append_right _ hg⟩, fun grant heq => ?_⟩
  obtain ⟨rfl, -⟩ := filter_eq_some_iff.mp (ok.inj heq)
  exact mem_append_left _ mem_cons_self

theorem obeys_fetchById (id : ℕ) :
    (fetchRemoteControlGrantById id).Obeys conduct (Fetched known) ⟨.start, known⟩ := by
  refine ⟨.follows known id, fun pointer _ => ?_⟩
  cases pointer with
  | none => exact ⟨⟨rfl, fun _ hg => hg⟩, nofun⟩
  | some key => exact ⟨.fetches known key, fun found _ => fetched_filter⟩

theorem obeys_fetchForController (user : String) :
    (fetchRemoteControlGrantForController user).Obeys conduct (Fetched known) ⟨.start, known⟩ := by
  refine ⟨.looks _ _ rfl, fun pointer _ => ?_⟩
  cases pointer with
  | none => exact ⟨⟨rfl, fun _ hg => hg⟩, nofun⟩
  | some key => exact ⟨.fetches known key, fun found _ => fetched_filter⟩

/-! ### Ends -/

theorem AtStart.rests {l : Local} (h : AtStart known l) : l.phase.rests = true := by
  rw [h.1]
  rfl

theorem AtStart.obeys {l : Local} (h : AtStart known l) {α : Type} {p : Program α}
    {post : Local → Except ControlError α → Prop} (hp : p.Obeys conduct post ⟨.start, l.known⟩) :
    p.Obeys conduct post l := by
  rw [h.eq]
  exact hp

theorem AtStart.trans {l l' : Local} (h : AtStart known l) (h' : AtStart l.known l') :
    AtStart known l' :=
  ⟨h'.1, fun g hg => h'.2 g (h.2 g hg)⟩

theorem obeys_endFound (hkn : ∀ grant, found = some grant → grant ∈ known) :
    (endFound found).Obeys conduct (fun l _ => AtStart known l) ⟨.start, known⟩ := by
  cases found with
  | none => exact ⟨rfl, fun _ hg => hg⟩
  | some grant =>
    refine (obeys_end (hkn grant rfl)).mono fun l _ h => ?_
    subst h
    exact ⟨rfl, fun _ hg => hg⟩

theorem obeys_endEach (grants : List Grant) : ∀ {known : List Grant}, (∀ g ∈ grants, g ∈ known) →
    (endEach grants).Obeys conduct (fun l _ => AtStart known l) ⟨.start, known⟩ := by
  induction grants with
  | nil => exact fun _ => ⟨rfl, fun _ hg => hg⟩
  | cons grant grants ih =>
    intro known hkn
    refine Obeys.bind (Obeys.mono (fun l result h => ?_) (obeys_end (hkn grant mem_cons_self)))
    subst h
    cases result with
    | error error => exact ⟨rfl, fun _ hg => hg⟩
    | ok _ => exact ih fun g hg => hkn g (mem_cons_of_mem _ hg)

theorem obeys_fetchEach (channel : String) (sharers : List String) : ∀ {known : List Grant},
    (fetchEach channel sharers).Obeys conduct (fun l result => AtStart known l ∧
      ∀ grants, result = .ok grants → ∀ g ∈ grants, g ∈ l.known) ⟨.start, known⟩ := by
  induction sharers with
  | nil =>
    refine fun {known} => ⟨⟨rfl, fun _ hg => hg⟩, fun grants heq g hg => ?_⟩
    cases heq
    cases hg
  | cons sharer sharers ih =>
    refine Obeys.bind (Obeys.mono (fun l found h => ?_) (obeys_fetch channel sharer))
    obtain ⟨hstar, hfnd⟩ := h
    cases found with
    | error error => exact ⟨hstar, nofun⟩
    | ok found =>
      refine Obeys.bind (hstar.obeys (Obeys.mono (fun l' rest h => ?_) ih))
      obtain ⟨hrs, hgran⟩ := h
      cases rest with
      | error error => exact ⟨hstar.trans hrs, nofun⟩
      | ok rest =>
        refine ⟨hstar.trans hrs, fun grants heq g hg => ?_⟩
        cases heq
        rcases mem_append.mp hg with hnew | hold
        · obtain rfl := Option.mem_toList.mp hnew
          exact hrs.2 g (hfnd g rfl)
        · exact hgran rest rfl g hold

theorem obeys_release (channel : String) (id : ℕ) (user : String) (mayMute : Bool) :
    (controlRelease channel id user mayMute).Obeys conduct (fun l _ => l.phase.rests = true)
      ⟨.start, known⟩ := by
  refine Obeys.bind (Obeys.mono (fun l found h => ?_) (obeys_fetchById id))
  obtain ⟨hstar, hfnd⟩ := h
  rcases found with error | _ | grant
  · exact hstar.rests
  · exact hstar.rests
  · show Obeys _ _ _ (if _ then _ else if _ then _ else _)
    split_ifs
    · exact hstar.rests
    · exact hstar.rests
    · refine hstar.obeys ((obeys_end (hfnd grant rfl)).mono fun l' _ h => ?_)
      rw [h]
      rfl

theorem obeys_heartbeat (channel user : String) (publishing : Bool) (nowMs : Int) :
    (controlHeartbeat channel user publishing nowMs).Obeys conduct
      (fun l _ => l.phase.rests = true) ⟨.start, known⟩ := by
  refine Obeys.bind (Obeys.mono (fun l found h => ?_) (obeys_fetch channel user))
  obtain ⟨hstar, hfnd⟩ := h
  rcases found with error | _ | grant
  · exact hstar.rests
  · exact hstar.rests
  · show Obeys _ _ _ (if publishing = true then _ else _)
    split_ifs
    · exact hstar.obeys ⟨.beats _ grant _ (hfnd grant rfl), fun _ _ => rfl⟩
    · refine Obeys.bind (hstar.obeys ((obeys_end (hfnd grant rfl)).mono fun l' result h => ?_))
      subst h
      cases result <;> rfl

theorem obeys_releaseUser (channel user : String) (controller : ControllerRelease) :
    (releaseRemoteControl channel user controller).Obeys conduct
      (fun l _ => l.phase.rests = true) ⟨.start, known⟩ := by
  refine ⟨.looks _ _ rfl, fun any _ => ?_⟩
  show Obeys _ _ _ (if (!any) = true then _ else _)
  split_ifs
  · rfl
  refine Obeys.bind (Obeys.mono (fun l shared h => ?_) (obeys_fetch channel user))
  obtain ⟨hstar, hshar⟩ := h
  cases shared with
  | error error => exact hstar.rests
  | ok shared =>
    refine Obeys.bind (hstar.obeys ((obeys_endFound fun grant heq =>
      hshar grant (congrArg _ heq)).mono fun l' result h => ?_))
    cases result with
    | error error => exact h.rests
    | ok _ =>
      refine Obeys.bind (h.obeys (Obeys.mono (fun l' controlled h => ?_)
        (obeys_fetchForController user)))
      obtain ⟨hstar', hcon⟩ := h
      cases controlled with
      | error error => exact hstar'.rests
      | ok controlled =>
        refine hstar'.obeys ((obeys_endFound fun grant heq => ?_).mono fun _ _ h => h.rests)
        obtain ⟨rfl, -⟩ := filter_eq_some_iff.mp heq
        exact hcon grant rfl

theorem obeys_releaseChannel (channel : String) :
    (releaseRemoteControlForChannel channel).Obeys conduct (fun l _ => l.phase.rests = true)
      ⟨.start, known⟩ := by
  refine ⟨.looks _ _ rfl, fun sharers _ => ?_⟩
  show Obeys _ _ _ ((fetchEach channel sharers).bind _)
  refine Obeys.bind (Obeys.mono (fun l grants h => ?_) (obeys_fetchEach channel sharers))
  obtain ⟨hstar, hgran⟩ := h
  cases grants with
  | error error => exact hstar.rests
  | ok grants =>
    exact hstar.obeys ((obeys_endEach grants (hgran grants rfl)).mono fun _ _ h => h.rests)

theorem obeys_failClosed (member : ExpiryMember) :
    (failClosed member).Obeys conduct (fun l _ => AtStart known l) ⟨.start, known⟩ := by
  refine ⟨.looks _ _ rfl, fun node _ => ?_⟩
  cases node with
  | none => exact ⟨.drops known member, fun _ _ => ⟨rfl, fun _ hg => hg⟩⟩
  | some node =>
    exact ⟨.ejects known _ _, fun _ _ => ⟨.drops known member, fun _ _ => ⟨rfl, fun _ hg => hg⟩⟩⟩

theorem obeys_reapEach (members : List ExpiryMember) : ∀ {known : List Grant},
    (reapEach members).Obeys conduct (fun l _ => l.phase.rests = true) ⟨.start, known⟩ := by
  induction members with
  | nil => exact rfl
  | cons member members ih =>
    refine Obeys.bind (Obeys.mono (fun l found h => ?_) (obeys_fetchById member.grantId))
    obtain ⟨hstar, hfnd⟩ := h
    rcases found with error | _ | grant
    · exact hstar.rests
    · refine Obeys.bind (hstar.obeys ((obeys_failClosed member).mono fun l' result h => ?_))
      cases result with
      | error error => exact h.rests
      | ok _ => exact h.obeys ih
    · refine Obeys.bind (hstar.obeys ((obeys_end (hfnd grant rfl)).mono fun l' result h => ?_))
      subst h
      cases result with
      | error error => rfl
      | ok _ => exact ih

theorem obeys_reap (nowMs : Option Int) :
    (reap nowMs).Obeys conduct (fun l _ => l.phase.rests = true) ⟨.start, known⟩ :=
  ⟨.looks _ _ rfl, fun members _ => obeys_reapEach members⟩

/-! ### An accept -/

/-- Where the creation of a grant ends. -/
def Creation (grant : Grant) (l : Local)
    (result : Except ControlError RemoteControlGrantOutcome) : Prop :=
  if result = .ok .created then l.phase = .accept .created grant else l.phase.rests = true

theorem obeys_create (grant : Grant) (nowMs : Int) :
    (createRemoteControlGrant nowMs grant).Obeys conduct (Creation grant)
      ⟨.named grant.id, known⟩ := by
  refine ⟨.claims known grant, fun claimed _ => ?_⟩
  cases claimed with
  | false => exact rfl
  | true =>
    refine ⟨.indexes known grant _, fun _ _ => ⟨.owns known grant, fun claimed _ => ?_⟩⟩
    cases claimed with
    | false => exact ⟨.unindexes known grant, fun _ _ => ⟨.withdraws known grant, fun _ _ => rfl⟩⟩
    | true => exact ⟨.points known grant, fun _ _ => ⟨.lists known grant, fun _ _ => rfl⟩⟩

theorem obeys_accept (channel sharer controller identity : String) (nowMs : Int) :
    (controlAccept channel sharer controller identity nowMs).Obeys conduct
      (fun l _ => l.phase.rests = true) ⟨.start, known⟩ := by
  refine ⟨.looks _ _ rfl, fun node _ => ?_⟩
  cases node with
  | none => exact rfl
  | some node =>
    refine ⟨.names known, fun id _ => ?_⟩
    let grant : Grant := ⟨id, channel, node, sharer, controller, identity⟩
    show Obeys conduct _ ⟨.named grant.id, known⟩ ((createRemoteControlGrant nowMs grant).bind _)
    refine Obeys.bind (Obeys.mono (fun l outcome h => ?_) (obeys_create grant nowMs))
    rcases outcome with error | outcome
    · exact h
    · show Obeys _ _ _ (if outcome ≠ .created then _ else _)
      split_ifs with hout
      · rw [Creation, if_neg (by simpa using hout)] at h
        exact h
      · rw [Creation, if_pos (by simpa using hout)] at h
        obtain ⟨phase, known⟩ := l
        obtain rfl : phase = .accept .created grant := h
        refine ⟨.grants known grant, fun _ _ => ⟨.rechecks known grant, fun pointer _ => ?_⟩⟩
        cases pointer with
        | none => exact ⟨.undoes known grant, fun _ _ => rfl⟩
        | some key =>
          refine ⟨.rereads known grant key, fun found _ => ?_⟩
          -- it is the record of this grant, or the permission is taken back
          show Obeys conduct _
            ⟨.accept (if found.any fun other => other.id = grant.id then .accepted else .raced) grant,
              found.toList ++ known⟩
            (if (found.filter fun other => other.id = grant.id).isNone = true then _ else _)
          by_cases hfnd : found.any fun other => other.id = grant.id
          · have hso : (found.filter fun other => other.id = grant.id).isNone = false := by
              cases found <;> simp_all
            rw [if_pos hfnd, hso, if_neg false_ne_true]
            exact rfl
          · have hno : (found.filter fun other => other.id = grant.id).isNone = true := by
              cases found <;> simp_all
            rw [if_neg hfnd, hno, if_pos rfl]
            exact ⟨.undoes _ grant, fun _ _ => rfl⟩

theorem obeys_body (request : Request) :
    (body request).Obeys conduct (fun l _ => l.phase.rests = true) conduct.init := by
  cases request with
  | accept channel sharer controller identity nowMs => exact obeys_accept ..
  | release channel id user mayMute => exact obeys_release ..
  | heartbeat channel user publishing nowMs => exact obeys_heartbeat ..
  | releaseUser channel user controller => exact obeys_releaseUser ..
  | releaseChannel channel => exact obeys_releaseChannel channel
  | reap nowMs => exact obeys_reap nowMs

end Obeys

/-! ## The system -/

/-- The store, and where everybody is. -/
abbrev World : Type := Watched Store Local

abbrev Requests : Type := System World Request ControlError Call Reply Unit

def exec (sys : Requests) (event : Event Request) : Requests × Unit :=
  System.exec (fun pid c (w : World) => w.perform conduct perform pid c) body sys event

/-- No grants, and the rooms on their nodes. -/
def idle (nodes : Table String String) : Requests :=
  System.idle (Watched.start conduct ⟨∅, ∅, ∅, [], ∅, nodes, ∅⟩)

/-! ## What a step does -/

namespace World

def phase (w : World) (pid : ℕ) : Phase := (w.locals pid).phase

/-- A request makes something of the store, and is somewhere else. -/
def put (w : World) (store : Store) (pid : ℕ) (l : Local) : World :=
  ⟨store, Function.update w.locals pid l⟩

variable {w : World} {store : Store} {pid q : ℕ} {l : Local}

theorem locals_put : (w.put store pid l).locals q = if q = pid then l else w.locals q :=
  Function.update_apply ..

theorem phase_put : (w.put store pid l).phase q = if q = pid then l.phase else w.phase q := by
  unfold phase
  rw [locals_put]
  split_ifs <;> rfl

theorem phase_put_self : (w.put store pid l).phase pid = l.phase := phase_put.trans (if_pos rfl)

theorem phase_put_of_ne (hq : q ≠ pid) : (w.put store pid l).phase q = w.phase q :=
  phase_put.trans (if_neg hq)

theorem put_self (h : w.locals pid = l) : w.put w.store pid l = w := by
  unfold put
  rw [← h, Function.update_eq_self]

end World

/-- One call of a request: what it makes of the store, and where the request is then. -/
inductive Step (w : World) (pid : ℕ) : Call → World → Prop where
  | looks (c : Call) : Step w pid c w
  | fetches (known : List Grant) (key : GrantKey) : w.locals pid = ⟨.start, known⟩ →
      Step w pid (.getGrant key)
        (w.put w.store pid ⟨.start, (w.store.grants.get key).toList ++ known⟩)
  | names (known : List Grant) : w.locals pid = ⟨.start, known⟩ →
      Step w pid .newUlid (w.put w.store pid ⟨.named pid, known⟩)
  | claims (known : List Grant) (grant : Grant) : w.locals pid = ⟨.named grant.id, known⟩ →
      w.store.grants.get grant.key = none →
      Step w pid (.setNxGrant grant)
        (w.put { w.store with grants := w.store.grants.insert grant.key grant } pid
          ⟨.accept .claimed grant, known⟩)
  | finds (known : List Grant) (grant : Grant) : w.locals pid = ⟨.named grant.id, known⟩ →
      Step w pid (.setNxGrant grant) (w.put w.store pid ⟨.busy, known⟩)
  | indexes (known : List Grant) (grant : Grant) (score : Int) :
      w.locals pid = ⟨.accept .claimed grant, known⟩ →
      Step w pid (.zadd grant.expiryMember score)
        (w.put { w.store with expiry := w.store.expiry.insert grant.expiryMember score } pid
          ⟨.accept .indexed grant, known⟩)
  | owns (known : List Grant) (grant : Grant) : w.locals pid = ⟨.accept .indexed grant, known⟩ →
      w.store.controllers.get grant.controllerId = none →
      Step w pid (.setNxController grant.controllerId grant.key)
        (w.put { w.store with
            controllers := w.store.controllers.insert grant.controllerId grant.key } pid
          ⟨.accept .owning grant, known⟩)
  | refuses (known : List Grant) (grant : Grant) : w.locals pid = ⟨.accept .indexed grant, known⟩ →
      Step w pid (.setNxController grant.controllerId grant.key)
        (w.put w.store pid ⟨.accept .refused grant, known⟩)
  | unindexes (known : List Grant) (grant : Grant) :
      w.locals pid = ⟨.accept .refused grant, known⟩ →
      Step w pid (.zrem grant.expiryMember)
        (w.put { w.store with expiry := w.store.expiry.erase grant.expiryMember } pid
          ⟨.accept .unindexed grant, known⟩)
  | withdraws (known : List Grant) (grant : Grant) :
      w.locals pid = ⟨.accept .unindexed grant, known⟩ →
      Step w pid (.delGrant grant.key)
        (w.put { w.store with grants := w.store.grants.erase grant.key } pid
          ⟨.accept .withdrawn grant, known⟩)
  | points (known : List Grant) (grant : Grant) : w.locals pid = ⟨.accept .owning grant, known⟩ →
      Step w pid (.setGrantId grant.id grant.key)
        (w.put { w.store with grantIds := w.store.grantIds.insert grant.id grant.key } pid
          ⟨.accept .pointed grant, known⟩)
  | lists (known : List Grant) (grant : Grant) : w.locals pid = ⟨.accept .pointed grant, known⟩ →
      Step w pid (.saddGrant grant.key)
        (w.put { w.store with channelGrants := w.store.channelGrants.insert grant.key } pid
          ⟨.accept .created grant, known⟩)
  | grants (known : List Grant) (grant : Grant) : w.locals pid = ⟨.accept .created grant, known⟩ →
      Step w pid (.updatePermissions grant true)
        (w.put (perform pid (.updatePermissions grant true) w.store).1 pid
          ⟨.accept .granted grant, known⟩)
  | rechecks (known : List Grant) (grant : Grant) (stage : Stage) :
      w.locals pid = ⟨.accept .granted grant, known⟩ → stage = .rechecking ∨ stage = .raced →
      Step w pid (.getGrantId grant.id) (w.put w.store pid ⟨.accept stage grant, known⟩)
  | passes (known : List Grant) (grant other : Grant) (key : GrantKey) :
      w.locals pid = ⟨.accept .rechecking grant, known⟩ →
      w.store.grants.get key = some other → other.id = grant.id →
      Step w pid (.getGrant key) (w.put w.store pid ⟨.accept .accepted grant, other :: known⟩)
  | misses (known : List Grant) (grant : Grant) (key : GrantKey) :
      w.locals pid = ⟨.accept .rechecking grant, known⟩ →
      Step w pid (.getGrant key)
        (w.put w.store pid ⟨.accept .raced grant, (w.store.grants.get key).toList ++ known⟩)
  | undoes (known : List Grant) (grant : Grant) : w.locals pid = ⟨.accept .raced grant, known⟩ →
      Step w pid (.updatePermissions grant false)
        (w.put (perform pid (.updatePermissions grant false) w.store).1 pid
          ⟨.accept .undone grant, known⟩)
  | revokes (known : List Grant) (grant : Grant) : w.locals pid = ⟨.start, known⟩ → grant ∈ known →
      Step w pid (.updatePermissions grant false)
        (w.put (perform pid (.updatePermissions grant false) w.store).1 pid
          ⟨.ending .revoked grant, known⟩)
  | deletes (known : List Grant) (grant : Grant) : w.locals pid = ⟨.ending .revoked grant, known⟩ →
      Step w pid (.delRecords grant)
        (w.put (perform pid (.delRecords grant) w.store).1 pid ⟨.ending .deleted grant, known⟩)
  | unlists (known : List Grant) (grant : Grant) : w.locals pid = ⟨.ending .deleted grant, known⟩ →
      Step w pid (.sremGrant grant.key)
        (w.put (perform pid (.sremGrant grant.key) w.store).1 pid ⟨.ending .unlisted grant, known⟩)
  | ends (known : List Grant) (grant : Grant) : w.locals pid = ⟨.ending .unlisted grant, known⟩ →
      Step w pid (.zrem grant.expiryMember)
        (w.put { w.store with expiry := w.store.expiry.erase grant.expiryMember } pid
          ⟨.start, known⟩)
  | beats (known : List Grant) (grant : Grant) (score : Int) : w.locals pid = ⟨.start, known⟩ →
      grant ∈ known →
      Step w pid (.zadd grant.expiryMember score)
        (w.put { w.store with expiry := w.store.expiry.insert grant.expiryMember score } pid
          ⟨.start, known⟩)
  | ejects (known : List Grant) (channel identity : String) : w.locals pid = ⟨.start, known⟩ →
      Step w pid (.removeIdentity channel identity)
        (w.put { w.store with permissions := w.store.permissions.erase (channel, identity) } pid
          ⟨.start, known⟩)
  | drops (known : List Grant) (member : ExpiryMember) : w.locals pid = ⟨.start, known⟩ →
      Step w pid (.zrem member)
        (w.put { w.store with expiry := w.store.expiry.erase member } pid ⟨.start, known⟩)

theorem step_of_allowed {w : World} {pid : ℕ} {c : Call} (hall : Allowed (w.locals pid) c) :
    Step w pid c (w.perform conduct perform pid c).1 := by
  generalize hl : w.locals pid = l at hall
  have hput : (w.perform conduct perform pid c).1 = w.put (perform pid c w.store).1 pid
      (l.note c (perform pid c w.store).2) := by
    rw [← hl]
    rfl
  rw [hput]
  cases hall with
  | looks l c hlook =>
    have hsm : w.put (perform pid c w.store).1 pid (l.note c (perform pid c w.store).2) = w := by
      cases c <;> first | exact World.put_self hl | cases hlook
    rw [hsm]
    exact .looks c
  | fetches known key => exact .fetches known key hl
  | follows known id =>
    show Step w pid _ (w.put w.store pid ⟨.start, known⟩)
    rw [World.put_self hl]
    exact .looks _
  | names known => exact .names known hl
  | claims known grant =>
    cases hget : w.store.grants.get grant.key with
    | none =>
      have hperf : perform pid (.setNxGrant grant) w.store =
          ({ w.store with grants := w.store.grants.insert grant.key grant }, true) := by
        simp only [perform, hget]
      rw [hperf]
      exact .claims known grant hl hget
    | some other =>
      have hperf : perform pid (.setNxGrant grant) w.store = (w.store, false) := by
        simp only [perform, hget]
      rw [hperf]
      exact .finds known grant hl
  | indexes known grant score => exact .indexes known grant score hl
  | owns known grant =>
    cases hget : w.store.controllers.get grant.controllerId with
    | none =>
      have hperf : perform pid (.setNxController grant.controllerId grant.key) w.store =
          ({ w.store with
            controllers := w.store.controllers.insert grant.controllerId grant.key }, true) := by
        simp only [perform, hget]
      rw [hperf]
      exact .owns known grant hl hget
    | some key =>
      have hperf : perform pid (.setNxController grant.controllerId grant.key) w.store =
          (w.store, false) := by
        simp only [perform, hget]
      rw [hperf]
      exact .refuses known grant hl
  | unindexes known grant => exact .unindexes known grant hl
  | withdraws known grant => exact .withdraws known grant hl
  | points known grant => exact .points known grant hl
  | lists known grant => exact .lists known grant hl
  | grants known grant => exact .grants known grant hl
  | rechecks known grant => exact .rechecks known grant _ hl (ite_eq_or_eq ..)
  | rereads known grant key =>
    have hnt : Local.note ⟨.accept .rechecking grant, known⟩ (.getGrant key)
        (w.store.grants.get key) =
          ⟨.accept (if (w.store.grants.get key).any fun other => other.id = grant.id then .accepted
            else .raced) grant, (w.store.grants.get key).toList ++ known⟩ := rfl
    rw [show (perform pid (.getGrant key) w.store).2 = w.store.grants.get key from rfl, hnt]
    split_ifs with hfnd
    · obtain ⟨other, hget, hid⟩ := (Option.any_eq_true _ _).mp hfnd
      rw [hget]
      exact .passes known grant other key hl hget (of_decide_eq_true hid)
    · exact .misses known grant key hl
  | undoes known grant => exact .undoes known grant hl
  | revokes known grant hmem => exact .revokes known grant hl hmem
  | deletes known grant => exact .deletes known grant hl
  | unlists known grant => exact .unlists known grant hl
  | ends known grant => exact .ends known grant hl
  | beats known grant score hmem => exact .beats known grant score hl hmem
  | ejects known channel identity => exact .ejects known channel identity hl
  | drops known member => exact .drops known member hl

/-! ## Where grants come from -/

section

variable {κ V : Type} [DecidableEq κ] {t : Table κ V} {k k' : κ}

theorem get_of_erase {v : V} (h : (t.erase k).get k' = some v) : t.get k' = some v := by
  rw [get_erase] at h
  split_ifs at h
  exact h

theorem isSome_insert {v : V} (h : (t.get k').isSome) : ((t.insert k v).get k').isSome := by
  rw [get_insert]
  split_ifs
  · rfl
  · exact h

theorem isSome_erase (hne : k' ≠ k) (h : (t.get k').isSome) : ((t.erase k).get k').isSome := by
  rwa [get_erase, if_neg hne]

end

/-- The record of a grant is there. -/
def World.Recorded (w : World) (grant : Grant) : Prop := w.store.grants.get grant.key = some grant

/-- The grant was claimed by the accept that made it. -/
def World.Issued (w : World) (grant : Grant) : Prop :=
  ∃ stage, w.phase grant.id = .accept stage grant

/-- Whatever is known of a grant, its accept has claimed. -/
structure Sourced (w : World) : Prop where
  named : ∀ pid id, w.phase pid = .named id → id = pid
  own : ∀ pid stage grant, w.phase pid = .accept stage grant → grant.id = pid
  stored : ∀ key grant, w.store.grants.get key = some grant → grant.key = key ∧ w.Issued grant
  known : ∀ pid, ∀ grant ∈ (w.locals pid).known, w.Issued grant
  ending : ∀ pid stage grant, w.phase pid = .ending stage grant → w.Issued grant

section Sourced

variable {w w' : World} {store : Store} {pid : ℕ} {l : Local} {grant other : Grant}
  {known known' : List Grant} {phase : Phase}

theorem World.phase_eq (h : w.locals pid = ⟨phase, known⟩) :
    w.phase pid = phase := congrArg Local.phase h

theorem World.Issued.unique (h : w.Issued grant) (h' : w.Issued other) (hid : grant.id = other.id) :
    grant = other := by
  obtain ⟨stage, hph⟩ := h
  obtain ⟨stage', hph'⟩ := h'
  rw [hid, hph'] at hph
  exact (Phase.accept.inj hph).2.symm

theorem World.Issued.put (h : w.Issued grant)
    (hkp : ∀ stage other, w.phase pid = .accept stage other → ∃ stage', l.phase = .accept stage' other) :
    (w.put store pid l).Issued grant := by
  obtain ⟨stage, hph⟩ := h
  by_cases hid : grant.id = pid
  · rw [hid] at hph
    obtain ⟨stage', hph'⟩ := hkp stage grant hph
    exact ⟨stage', by rw [hid, World.phase_put_self, hph']⟩
  · exact ⟨stage, by rw [World.phase_put_of_ne hid, hph]⟩

section

variable (hs : Sourced w)
include hs

theorem Sourced.put
    (hkp : ∀ stage other, w.phase pid = .accept stage other → ∃ stage', l.phase = .accept stage' other)
    (hnam : ∀ id, l.phase = .named id → id = pid)
    (hown : ∀ stage other, l.phase = .accept stage other → other.id = pid)
    (hsto : ∀ key other, store.grants.get key = some other → w.store.grants.get key = some other ∨
        other.key = key ∧ ∃ stage, l.phase = .accept stage other)
    (hkn : ∀ other ∈ l.known, w.Issued other)
    (hend : ∀ stage other, l.phase = .ending stage other → w.Issued other) :
    Sourced (w.put store pid l) where
  named q id hph := by
    rw [World.phase_put] at hph
    split_ifs at hph with hq
    · exact hq ▸ hnam id hph
    · exact hs.named q id hph
  own q stage other hph := by
    rw [World.phase_put] at hph
    split_ifs at hph with hq
    · exact hq ▸ hown stage other hph
    · exact hs.own q stage other hph
  stored key other hget := by
    rcases hsto key other hget with hold | ⟨hkey, stage, hph⟩
    · exact ⟨(hs.stored key other hold).1, (hs.stored key other hold).2.put hkp⟩
    · refine ⟨hkey, stage, ?_⟩
      rw [hown stage other hph, World.phase_put_self, hph]
  known q other hoth := by
    rw [World.locals_put] at hoth
    split_ifs at hoth
    · exact (hkn other hoth).put hkp
    · exact (hs.known q other hoth).put hkp
  ending q stage other hph := by
    rw [World.phase_put] at hph
    split_ifs at hph
    · exact (hend stage other hph).put hkp
    · exact (hs.ending q stage other hph).put hkp

theorem Sourced.move {stage stage' : Stage} (hl : w.locals pid = ⟨.accept stage grant, known⟩)
    (hsto : ∀ key other, store.grants.get key = some other → w.store.grants.get key = some other)
    (hkn : ∀ other ∈ known', w.Issued other) :
    Sourced (w.put store pid ⟨.accept stage' grant, known'⟩) := by
  have hph := World.phase_eq hl
  refine hs.put (fun stage0 other h => ?_) nofun (fun stage0 other h => ?_)
    (fun key other h => .inl (hsto key other h)) hkn nofun
  · obtain ⟨-, rfl⟩ := Phase.accept.inj (hph.symm.trans h)
    exact ⟨stage', rfl⟩
  · obtain ⟨-, rfl⟩ := Phase.accept.inj h
    exact hs.own pid stage grant hph

theorem Sourced.pass {phase' : Phase} (hl : w.locals pid = ⟨phase, known⟩)
    (hacc : ∀ stage other, phase ≠ .accept stage other) (hnam : ∀ id, phase' = .named id → id = pid)
    (hacc' : ∀ stage other, phase' ≠ .accept stage other)
    (hsto : ∀ key other, store.grants.get key = some other → w.store.grants.get key = some other)
    (hkn : ∀ other ∈ known', w.Issued other)
    (hend : ∀ stage other, phase' = .ending stage other → w.Issued other) :
    Sourced (w.put store pid ⟨phase', known'⟩) :=
  hs.put (fun stage other h => absurd ((World.phase_eq hl).symm.trans h) (hacc stage other))
    hnam (fun stage other h => absurd h (hacc' stage other))
    (fun key other h => .inl (hsto key other h)) hkn hend

theorem Sourced.known_of (hl : w.locals pid = ⟨phase, known⟩) :
    ∀ other ∈ known, w.Issued other := by
  intro other hoth
  refine hs.known pid other ?_
  rw [hl]
  exact hoth

theorem Sourced.known_read (hl : w.locals pid = ⟨phase, known⟩) (key : GrantKey) :
    ∀ other ∈ (w.store.grants.get key).toList ++ known, w.Issued other := by
  intro other hoth
  rcases mem_append.mp hoth with hnew | hold
  · exact (hs.stored key other (Option.mem_toList.mp hnew)).2
  · exact hs.known_of hl other hold

end

theorem sourced_start (store : Store) (hgran : store.grants = ∅) :
    Sourced (Watched.start conduct store) :=
  ⟨nofun, nofun, fun key grant hget => by simp [Watched.start, hgran] at hget,
    fun pid other hoth => by simp [Watched.start, conduct] at hoth, nofun⟩

theorem Sourced.step (hs : Sourced w) {c : Call} (hst : Step w pid c w') : Sourced w' := by
  cases hst with
  | looks c => exact hs
  | fetches known key hl =>
    exact hs.pass hl nofun nofun nofun (fun _ _ h => h) (hs.known_read hl key) nofun
  | names known hl =>
    exact hs.pass hl nofun (fun id h => (Phase.named.inj h).symm) nofun (fun _ _ h => h)
      (hs.known_of hl) nofun
  | claims known grant hl hget =>
    have hid : grant.id = pid := hs.named pid grant.id (World.phase_eq hl)
    refine hs.put (fun stage other h => nomatch (World.phase_eq hl).symm.trans h) nofun
      (fun stage other h => ?_) (fun key other h => ?_) (hs.known_of hl) nofun
    · obtain ⟨-, rfl⟩ := Phase.accept.inj h
      exact hid
    · rw [get_insert] at h
      split_ifs at h with hkey
      · cases h
        exact .inr ⟨hkey.symm, .claimed, rfl⟩
      · exact .inl h
  | finds known grant hl | ends known grant hl | beats known grant score hl hmem
  | ejects known channel identity hl | drops known member hl =>
    exact hs.pass hl nofun nofun nofun (fun _ _ h => h) (hs.known_of hl) nofun
  | indexes known grant score hl | owns known grant hl hget | refuses known grant hl
  | unindexes known grant hl | points known grant hl | lists known grant hl
  | grants known grant hl | rechecks known grant stage hl hstg | undoes known grant hl =>
    exact hs.move hl (fun _ _ h => h) (hs.known_of hl)
  | withdraws known grant hl => exact hs.move hl (fun _ _ => get_of_erase) (hs.known_of hl)
  | passes known grant other key hl hget hid =>
    refine hs.move hl (fun _ _ h => h) fun other' hoth => ?_
    rcases mem_cons.mp hoth with rfl | hold
    · exact (hs.stored key other' hget).2
    · exact hs.known_of hl other' hold
  | misses known grant key hl => exact hs.move hl (fun _ _ h => h) (hs.known_read hl key)
  | revokes known grant hl hmem =>
    refine hs.pass hl nofun nofun nofun (fun _ _ h => h) (hs.known_of hl) fun stage other h => ?_
    obtain ⟨-, rfl⟩ := Phase.ending.inj h
    exact hs.known_of hl grant hmem
  | deletes known grant hl =>
    refine hs.pass hl nofun nofun nofun (fun _ _ => get_of_erase) (hs.known_of hl)
      fun stage other h => ?_
    obtain ⟨-, rfl⟩ := Phase.ending.inj h
    exact hs.ending pid _ grant (World.phase_eq hl)
  | unlists known grant hl =>
    refine hs.pass hl nofun nofun nofun (fun _ _ h => h) (hs.known_of hl) fun stage other h => ?_
    obtain ⟨-, rfl⟩ := Phase.ending.inj h
    exact hs.ending pid _ grant (World.phase_eq hl)

end Sourced

/-! ## Runs -/

section Runs

variable {Inv : World → Prop} {permits : ℕ → Call → World → Prop} {nodes : Table String String}
  {history : List (Requests × Event Request)} {sys : Requests}

section

variable (hstar : Inv (idle nodes).store)
  (hst : ∀ pid c w w', Sourced w → Inv w → permits pid c w → Step w pid c w' → Inv w')
  (hrun : Run exec (System.StepAdmits (fun _ => True) permits) (idle nodes) history sys)
include hstar hst hrun

theorem lawful_of_run : System.Lawful conduct Watched.locals (fun _ l _ => l.phase.rests = true)
      (fun w => Sourced w ∧ Inv w) sys := by
  refine Watched.run (fun request _ => obeys_body request) (fun pid c w hinv hper hall => ?_)
    ⟨sourced_start _ rfl, hstar⟩ hrun
  have hst' := step_of_allowed hall
  exact ⟨⟨hinv.1.step hst', hst pid c w _ hinv.1 hinv.2 hper hst'⟩, trivial⟩

/-- **The invariant rule for grants.** -/
theorem inv_of_run : Sourced sys.store ∧ Inv sys.store ∧
      (sys.AllEnded → ∀ pid, (sys.store.phase pid).rests = true) := by
  have hlaw := lawful_of_run hstar hst hrun
  refine ⟨hlaw.store.1, hlaw.store.2, fun hende pid => ?_⟩
  rcases Watched.post_of_ended hlaw hende pid with hin | ⟨-, -, hres⟩
  · rw [World.phase, hin]
    rfl
  · exact hres

theorem step_of_run
    {event : Event Request} (hadm : System.StepAdmits (fun _ => True) permits sys event) :
    (exec sys event).1.store = sys.store ∨ ∃ pid c, event = .step pid ∧ sys.calls event = some c ∧
      permits pid c sys.store ∧ Step sys.store pid c (exec sys event).1.store := by
  have hlaw := lawful_of_run hstar hst hrun
  rcases System.store_exec (fun pid c w => w.perform conduct perform pid c) body sys event with
    ⟨-, hsm⟩ | ⟨pid, c, rfl, hcal, hstor⟩
  · exact .inl hsm
  · obtain ⟨pid', request, rest, heq, hget⟩ := System.calls_eq_some hcal
    obtain rfl : pid = pid' := Event.step.inj heq
    have hnx : sys.nextCall pid = some c := by
      simp only [System.nextCall, hget]
      rfl
    refine .inr ⟨pid, c, rfl, hcal, hadm c hnx, ?_⟩
    show Step sys.store pid c (System.exec _ _ _ _).1.store
    rw [hstor]
    exact step_of_allowed (hlaw.process pid request _ hget).1

end

end Runs

/-! ## For concrete runs -/

def rooms : Table String String := Table.insert ∅ "room" "node"

/-- So many calls of a request. -/
def calls (pid n : ℕ) : List (Event Request) := List.replicate n (.step pid)

end SlogaBackend.RemoteControl
