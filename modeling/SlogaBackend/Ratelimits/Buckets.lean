import SlogaBackend.Base

/-!
# Rate-limit buckets

Every request is counted in a bucket, which follows from its method and the first segments of its
path, and there under a resource, which is a segment of the path or nothing. The counter is found
by a hash of the identifier, the bucket and the resource, written one after the other with nothing
in between.

* `resolved_bucket`: which buckets there are, and which of them have resources.
* `written_eq_iff`: whose name and resource, written together, can be those of another.
-/

namespace SlogaBackend.Ratelimits

inductive Method where
  | get
  | put
  | post
  | delete
  | options
  | head
  | trace
  | connect
  | patch
  deriving DecidableEq

structure Request where
  /-- The session, or the address of a caller without one. -/
  identifier : String
  method : Method
  /-- The segments of the path. -/
  segments : List String

def Request.routedSegment (request : Request) (n : Nat) : Option String := request.segments[n]?

/-- What a segment names, past the prefix of the legacy version. -/
def Request.versioned (request : Request) : Bool := request.routedSegment 0 = some "0.8"

def Request.segmentAt (request : Request) (n : Nat) : Option String :=
  request.routedSegment (if request.versioned then n + 1 else n)

def resolveChannelBucket (request : Request) (id : String) : String × Option String :=
  let extra := request.segmentAt 2
  let method := request.method
  if (method = .put ∨ method = .delete) ∧ extra = some "polls" then ("poll_vote", some id)
  -- the heartbeat and the release share the generous bucket
  else if extra = some "control" ∧
      (method = .delete ∨ method = .post ∧ request.segmentAt 3 = some "heartbeat") then
    ("remote_control_heartbeat", some id)
  else if extra = some "control" ∧ method = .post ∧ request.segmentAt 3 = some "request" then
    ("control_request", some id)
  else if extra = some "control" ∧ (method = .post ∨ method = .put) then
    ("remote_control_offer", some id)
  else if (method = .put ∨ method = .delete) ∧ extra = some "softres" ∧
      request.segmentAt 4 = some "reserve" then
    ("softres_reserve", some id)
  else if extra = some "scheduled_messages" then ("message_schedule", some id)
  else if method = .post ∧ extra = some "soundboard" then ("soundboard", some id)
  else if method = .post ∧ extra = some "captions" then ("captions", some id)
  else if extra = some "annotations" ∧ request.segmentAt 3 = some "allow" then
    ("annotations_consent", some id)
  else if extra = some "annotations" ∧ method = .post then ("annotations", some id)
  else if extra = some "watch" then ("watch", some id)
  else if extra = some "afk_idle" then ("afk_idle", some id)
  else if extra = some "follow" then ("follow", some id)
  else if method = .post ∧ extra = some "messages" ∧ request.segmentAt 4 = some "interact" then
    ("message_interact", some id)
  else if method = .post ∧ (extra = some "messages" ∨ extra = some "roll") then
    ("messaging", some id)
  else if method = .post ∧ extra = some "polls" ∧ request.segmentAt 3 ≠ some "fetch" ∧
      request.segmentAt 4 ≠ some "end" then
    ("messaging", some id)
  else if method = .post ∧ extra = some "softres" ∧ request.segmentAt 3 = none then
    ("messaging", some id)
  else if method = .post ∧ extra = some "threads" then ("thread_create", some id)
  else if method = .post ∧ extra = some "posts" then ("forum_post_create", some id)
  else if method = .post ∧ extra = some "interactions" ∧
      request.segmentAt 3 = some "autocomplete" then
    ("interaction_autocomplete", some id)
  else if method = .post ∧ extra = some "interactions" then ("interaction_create", some id)
  else ("channels", some id)

/-- `DeltaRatelimits::resolve_bucket`. -/
def resolveBucket (request : Request) : String × Option String :=
  let resource := request.segmentAt 1
  let extra := request.segmentAt 2
  let method := request.method
  match request.segmentAt 0 with
  | none => ("any", none)
  | some "users" =>
    -- the supporter toggle must not spend the tight budget of edits
    if resource = some "@me" ∧ method = .patch ∧ extra = some "supporter" then ("users", none)
    else if method = .patch then ("user_edit", resource)
    else if (method = .put ∨ method = .delete) ∧ extra = some "respect" then ("respect", resource)
    else if extra = some "default_avatar" then ("default_avatar", none)
    else ("users", none)
  | some "bots" => if extra = some "commands" then ("bot_commands", none) else ("bots", none)
  | some "channels" =>
    match resource with
    | some id => resolveChannelBucket request id
    | none => ("any", none)
  | some "interactions" =>
    if extra = some "autocomplete" then ("interaction_autocomplete_respond", none)
    else ("interaction_respond", none)
  | some "discover" => ("discover", none)
  | some "servers" =>
    match resource with
    | some id =>
      if method = .get ∧ extra = some "audit_log" then ("audit_log", some id)
      else ("servers", some id)
    | none => ("any", none)
  | some "auth" => if method = .delete then ("auth_delete", none) else ("auth", none)
  | some "swagger" => ("swagger", none)
  | some "safety" =>
    if resource = some "report" then ("safety_report", some "report") else ("safety", none)
  | some "e2ee" =>
    if resource = some "keys" ∧ method = .get then ("e2ee_fetch_keys", extra)
    else if resource = some "devices" ∧ method = .get then ("e2ee_devices", none)
    else if resource = some "messages" ∧ method = .post then ("e2ee_messages", none)
    else if resource = some "backup" ∧ method = .get then
      if extra = some "status" then ("e2ee", none) else ("e2ee_backup_get", none)
    else ("e2ee", none)
  | some "mls" => ("mls", none)
  | some "events" =>
    if resource = some "server" ∧ method = .post then ("events_create", extra)
    else if resource = some "event" ∧ method = .post then ("events_invite", extra)
    else if resource = some "@me" ∧ (method = .get ∨ method = .head) then ("events_me", none)
    else ("events", none)
  | some "gifs" => ("gifs", none)
  | some "import" =>
    if resource.isSome ∧ method = .post then ("import_start", none) else ("import", none)
  | some "softres" => ("softres_catalog", none)
  | some "kofi" => ("kofi", none)
  | some "referrals" => ("referrals", none)
  | some "lookup" => ("lookup", none)
  | some "payments" =>
    if resource = some "stripe" then ("payments_webhook", none)
    else if resource = some "cipher" ∧ extra = some "stats" then ("payments_stats", none)
    else if resource = some "cipher" ∧ extra = some "@me" then ("payments_me", none)
    else if resource = some "prot" ∧ extra = some "@me" then ("payments_me", none)
    else ("payments", none)
  | some _ => ("any", none)

def bucketLimits : List (String × Nat) :=
  [("user_edit", 2), ("users", 20), ("bots", 10), ("messaging", 10), ("channels", 15),
    ("servers", 5), ("auth", 15), ("auth_delete", 255), ("default_avatar", 255),
    ("swagger", 100), ("safety", 15), ("safety_report", 3), ("gifs", 30), ("import_start", 5),
    ("import", 30), ("e2ee_fetch_keys", 10), ("e2ee_messages", 30), ("e2ee_backup_get", 3),
    ("e2ee", 10), ("e2ee_devices", 120), ("mls", 60), ("events_create", 10),
    ("events_invite", 5), ("events", 30), ("events_me", 10), ("thread_create", 5),
    ("forum_post_create", 5), ("interaction_create", 10), ("interaction_autocomplete", 40),
    ("interaction_autocomplete_respond", 250), ("poll_vote", 10), ("softres_reserve", 10),
    ("message_schedule", 10), ("soundboard", 4), ("captions", 30), ("annotations", 180),
    ("annotations_consent", 10), ("watch", 60), ("afk_idle", 10), ("remote_control_offer", 2),
    ("control_request", 3), ("remote_control_heartbeat", 30), ("follow", 2), ("respect", 5),
    ("discover", 20), ("interaction_respond", 30), ("message_interact", 20),
    ("bot_commands", 10), ("softres_catalog", 20), ("kofi", 60), ("referrals", 10),
    ("audit_log", 10), ("lookup", 5), ("payments", 3), ("payments_me", 10),
    ("payments_webhook", 60), ("payments_stats", 20)]

/-- `DeltaRatelimits::resolve_bucket_limit`. -/
def resolveBucketLimit (bucket : String) : Nat := (bucketLimits.lookup bucket).getD 20

/-! ## The buckets there are -/

/-- The buckets that may have a resource. -/
def keyedBuckets : List String :=
  ["user_edit", "respect", "poll_vote", "remote_control_heartbeat", "control_request",
    "remote_control_offer", "softres_reserve", "message_schedule", "soundboard", "captions",
    "annotations_consent", "annotations", "watch", "afk_idle", "follow", "message_interact",
    "messaging", "thread_create", "forum_post_create", "interaction_autocomplete",
    "interaction_create", "channels", "audit_log", "servers", "safety_report", "e2ee_fetch_keys",
    "events_create", "events_invite"]

def plainBuckets : List String :=
  ["any", "users", "default_avatar", "bot_commands", "bots", "interaction_autocomplete_respond",
    "interaction_respond", "discover", "auth_delete", "auth", "swagger", "safety", "e2ee_devices",
    "e2ee_messages", "e2ee", "e2ee_backup_get", "mls", "events_me", "events", "gifs",
    "import_start", "import", "softres_catalog", "kofi", "referrals", "lookup",
    "payments_webhook", "payments_stats", "payments_me", "payments"]

/-- A bucket and a resource that it may have. -/
def Resolved (b : String × Option String) : Prop :=
  b.1 ∈ keyedBuckets ∨ b.1 ∈ plainBuckets ∧ b.2 = none

variable {resource resource' : Option String} {b b' : String × Option String} {bucket : String}

theorem resolved_keyed (hkey : bucket ∈ keyedBuckets) : Resolved (bucket, resource) := .inl hkey

theorem resolved_plain (hpla : bucket ∈ plainBuckets) :
    Resolved (bucket, none) := .inr ⟨hpla, rfl⟩

theorem resolved_ite {c : Prop} [Decidable c] (hb : Resolved b) (hb' : Resolved b') :
    Resolved (if c then b else b') := by
  split
  · exact hb
  · exact hb'

theorem resolved_channelBucket (request : Request) (id : String) :
    Resolved (resolveChannelBucket request id) := by
  repeat refine resolved_ite (resolved_keyed (by decide)) ?_
  exact resolved_keyed (by decide)

theorem resolved_bucket (request : Request) : Resolved (resolveBucket request) := by
  unfold resolveBucket
  dsimp only
  split
  · exact resolved_plain (by decide)
  · -- users
    refine resolved_ite (resolved_plain (by decide)) ?_
    refine resolved_ite (resolved_keyed (by decide)) ?_
    refine resolved_ite (resolved_keyed (by decide)) ?_
    exact resolved_ite (resolved_plain (by decide)) (resolved_plain (by decide))
  · exact resolved_ite (resolved_plain (by decide)) (resolved_plain (by decide))
  · -- channels
    split
    · exact resolved_channelBucket request _
    · exact resolved_plain (by decide)
  · exact resolved_ite (resolved_plain (by decide)) (resolved_plain (by decide))
  · exact resolved_plain (by decide)
  · -- servers
    split
    · exact resolved_ite (resolved_keyed (by decide)) (resolved_keyed (by decide))
    · exact resolved_plain (by decide)
  · exact resolved_ite (resolved_plain (by decide)) (resolved_plain (by decide))
  · exact resolved_plain (by decide)
  · exact resolved_ite (resolved_keyed (by decide)) (resolved_plain (by decide))
  · -- e2ee
    refine resolved_ite (resolved_keyed (by decide)) ?_
    refine resolved_ite (resolved_plain (by decide)) ?_
    refine resolved_ite (resolved_plain (by decide)) ?_
    refine resolved_ite ?_ (resolved_plain (by decide))
    exact resolved_ite (resolved_plain (by decide)) (resolved_plain (by decide))
  · exact resolved_plain (by decide)
  · -- events
    refine resolved_ite (resolved_keyed (by decide)) ?_
    refine resolved_ite (resolved_keyed (by decide)) ?_
    exact resolved_ite (resolved_plain (by decide)) (resolved_plain (by decide))
  · exact resolved_plain (by decide)
  · exact resolved_ite (resolved_plain (by decide)) (resolved_plain (by decide))
  · exact resolved_plain (by decide)
  · exact resolved_plain (by decide)
  · exact resolved_plain (by decide)
  · exact resolved_plain (by decide)
  · -- payments
    refine resolved_ite (resolved_plain (by decide)) ?_
    refine resolved_ite (resolved_plain (by decide)) ?_
    refine resolved_ite (resolved_plain (by decide)) ?_
    exact resolved_ite (resolved_plain (by decide)) (resolved_plain (by decide))
  · exact resolved_plain (by decide)

theorem resolveBucketLimit_range (bucket : String) :
    0 < resolveBucketLimit bucket ∧ resolveBucketLimit bucket < 4294967296 := by
  have hall : ∀ entry ∈ bucketLimits, 0 < entry.2 ∧ entry.2 < 4294967296 := by decide
  unfold resolveBucketLimit
  cases hlook : bucketLimits.lookup bucket with
  | none => decide
  | some limit =>
    obtain ⟨before, after, hls, -⟩ := List.lookup_eq_some_iff.mp hlook
    have hmem : (bucket, limit) ∈ bucketLimits := by
      rw [hls]
      exact List.mem_append_right _ List.mem_cons_self
    exact hall _ hmem

/-! ## Names that run together -/

/-- A name and a resource that read the same as another name and resource. -/
inductive Meets : String × Option String → String × Option String → Prop
  | consent (resource : Option String) :
    Meets ("annotations", some ("_consent" ++ resource.getD "")) ("annotations_consent", resource)
  | respond :
    Meets ("interaction_autocomplete", some "_respond") ("interaction_autocomplete_respond", none)
  | empty (bucket : String) : Meets (bucket, none) (bucket, some "")

theorem prefix_of_keyed : ∀ bucket ∈ keyedBuckets, ∀ bucket' ∈ keyedBuckets ++ plainBuckets,
    bucket.toList <+: bucket'.toList → bucket = bucket' ∨
      bucket = "annotations" ∧ bucket' = "annotations_consent" ∨
      bucket = "interaction_autocomplete" ∧ bucket' = "interaction_autocomplete_respond" := by
  decide

/-- The bucket and its resource, written together. -/
def written (bucket : String × Option String) : String := bucket.1 ++ bucket.2.getD ""

theorem Meets.written_eq (hmeet : Meets b b') : written b = written b' := by
  cases hmeet <;> rfl

theorem Meets.ne (hmeet : Meets b b') : b ≠ b' := by
  intro heq
  have hnam := congrArg Prod.fst heq
  have hreso := congrArg Prod.snd heq
  cases hmeet with
  | consent resource =>
    have hnm : "annotations" = "annotations_consent" := hnam
    exact absurd hnm (by decide)
  | respond => exact absurd hnam (by decide)
  | empty bucket => exact nomatch hreso

theorem written_toList (b : String × Option String) :
    (written b).toList = b.1.toList ++ (b.2.getD "").toList := String.toList_append

/-- One name under resources that read the same: they are the same, or nothing and empty. -/
theorem eq_or_meets_of_getD (bucket : String) (hres : resource.getD "" = resource'.getD "") :
    (bucket, resource) = (bucket, resource') ∨ Meets (bucket, resource) (bucket, resource') ∨
      Meets (bucket, resource') (bucket, resource) := by
  cases resource with
  | none =>
    cases resource' with
    | none => exact .inl rfl
    | some text =>
      obtain rfl : "" = text := hres
      exact .inr (.inl (.empty bucket))
  | some text =>
    cases resource' with
    | none =>
      obtain rfl : text = "" := hres
      exact .inr (.inr (.empty bucket))
    | some text' =>
      obtain rfl : text = text' := hres
      exact .inl rfl

/-- A resource that starts with the rest of a longer name. -/
theorem resource_of_written {rest : String} (hrs : rest ≠ "")
    (hwr : written (bucket, resource) = written (bucket ++ rest, resource')) :
    resource = some (rest ++ resource'.getD "") := by
  have htex := congrArg String.toList hwr
  rw [written_toList, written_toList] at htex
  rw [String.toList_append, List.append_assoc] at htex
  have heq := List.append_cancel_left htex
  rw [← String.toList_append, String.toList_inj] at heq
  cases resource with
  | some text => exact congrArg some heq
  | none =>
    have hnil := congrArg String.toList heq
    rw [String.toList_append] at hnil
    have hemp : rest.toList = [] := (List.append_eq_nil_iff.mp hnil.symm).1
    exact absurd (String.toList_inj.mp (hemp.trans rfl)) hrs

theorem eq_or_meets_of_le (hb : Resolved b) (hb' : Resolved b') (hwr : written b = written b')
    (hle : b.1.toList.length ≤ b'.1.toList.length) : b = b' ∨ Meets b b' ∨ Meets b' b := by
  obtain ⟨bucket, resource⟩ := b
  obtain ⟨bucket', resource'⟩ := b'
  have htex := congrArg String.toList hwr
  rw [written_toList, written_toList] at htex
  dsimp only at hle htex
  have hbeg : bucket.toList <+: bucket'.toList :=
    List.prefix_of_prefix_length_le ⟨_, htex⟩ (List.prefix_append _ _) hle
  have hsm : bucket = bucket' → (bucket, resource) = (bucket', resource') ∨
      Meets (bucket, resource) (bucket', resource') ∨
        Meets (bucket', resource') (bucket, resource) := by
    rintro rfl
    exact eq_or_meets_of_getD bucket (String.toList_inj.mp (List.append_cancel_left htex))
  rcases hb with hkey | ⟨-, hno⟩
  · have hmem : bucket' ∈ keyedBuckets ++ plainBuckets :=
      List.mem_append.mpr (hb'.imp_right And.left)
    rcases prefix_of_keyed bucket hkey bucket' hmem hbeg with heq | ⟨rfl, rfl⟩ | ⟨rfl, rfl⟩
    · exact hsm heq
    · have hres : resource = some ("_consent" ++ resource'.getD "") :=
        resource_of_written (by decide) hwr
      rw [hres]
      exact .inr (.inl (.consent resource'))
    · rcases hb' with hkey' | ⟨-, hno'⟩
      · have hpla : "interaction_autocomplete_respond" ∉ keyedBuckets := by decide
        exact absurd hkey' hpla
      · obtain rfl : resource' = none := hno'
        have hres : resource = some ("_respond" ++ (none : Option String).getD "") :=
          resource_of_written (by decide) hwr
        rw [hres]
        exact .inr (.inl .respond)
  · -- no resource: the longer name begins the shorter one
    obtain rfl : resource = none := hno
    refine hsm (String.toList_inj.mp (hbeg.eq_of_length ?_))
    have hlen := congrArg List.length htex
    rw [List.length_append, List.length_append] at hlen
    have hemp : ((none : Option String).getD "").toList.length = 0 := rfl
    omega

/-- **Which names run together**, of those that there are. -/
theorem written_eq_iff (hb : Resolved b) (hb' : Resolved b') :
    written b = written b' ↔ b = b' ∨ Meets b b' ∨ Meets b' b := by
  constructor
  · intro hwr
    rcases le_total b.1.toList.length b'.1.toList.length with hle | hle
    · exact eq_or_meets_of_le hb hb' hwr hle
    · rcases eq_or_meets_of_le hb' hb hwr.symm hle with heq | hmeet | hmeet
      · exact .inl heq.symm
      · exact .inr (.inr hmeet)
      · exact .inr (.inl hmeet)
  · rintro (rfl | hmeet | hmeet)
    · rfl
    · exact hmeet.written_eq
    · exact hmeet.written_eq.symm

end SlogaBackend.Ratelimits
