import SlogaBackend.Lib.Runs
import SlogaBackend.Lib.SipHash
import SlogaBackend.Lib.Table
import SlogaBackend.Ratelimits.Buckets

/-!
# The rate limiter

A map holds an entry for each counter: how much of it is used, and when it starts again. A request
finds its entry by a hash of the bytes of its identifier, its bucket and its resource, and what
remains is its own bucket's limit less what the entry has used.

The three texts are hashed without anything between them. Two requests whose texts differ find
the same entry when they read the same written together, and then one bucket's limit meets what
was used under the other's.

* `stream_eq_iff`: when two requests have the same bytes.
* `kept_fromRequest`: what one request keeps, as long as only the same counter has the same key.
* `separate_iff`: **the counters are separate exactly when no two requests run together.**
-/

namespace SlogaBackend.Ratelimits

/-! ## Entries -/

/-- The subtraction of `u32`, which wraps around below zero. -/
def subU32 (a b : Nat) : Nat := (a + 2 ^ 32 - b) % 2 ^ 32

def addU32 (a b : Nat) : Nat := (a + b) % 2 ^ 32

/-- Ratelimit Bucket -/
structure Entry where
  used : Nat
  reset : Nat

/-- What the clock says, in milliseconds, each time that one call asks it. -/
structure Clock where
  made : Nat
  remaining : Nat
  left : Nat
  deducted : Nat
  renewed : Nat
  leftAfter : Nat
  made_le : made ≤ remaining
  remaining_le : remaining ≤ left
  left_le : left ≤ deducted
  deducted_le : deducted ≤ renewed
  renewed_le : renewed ≤ leftAfter

def Clock.still (now : Nat) : Clock :=
  ⟨now, now, now, now, now, now, le_rfl, le_rfl, le_rfl, le_rfl, le_rfl⟩

namespace Entry

/-- `Entry::from`. -/
def from_ (map : Table UInt64 Entry) (key : UInt64) (now : Nat) : Entry :=
  (map.get key).getD { used := 0, reset := now + 10 * 1000 }

/-- `Entry::deduct`. -/
def deduct (entry : Entry) (clock : Clock) : Entry :=
  if clock.deducted > entry.reset then { used := 1, reset := clock.renewed + 10 * 1000 }
  else { entry with used := addU32 entry.used 1 }

/-- `Entry::get_remaining`. -/
def getRemaining (entry : Entry) (limit now : Nat) : Nat :=
  if now > entry.reset then limit else subU32 limit entry.used

/-- `Entry::left_until_reset`. -/
def leftUntilReset (entry : Entry) (now : Nat) : Nat := entry.reset - now

end Entry

structure Ratelimiter where
  key : UInt64
  limit : Nat
  remaining : Nat
  reset : Nat

/-- The bytes that are hashed, in the order in which they are written. -/
def stream (identifier : String) (bucket : String × Option String) : List UInt8 :=
  identifier.toUTF8.data.toList ++ bucket.1.toUTF8.data.toList ++ match bucket.2 with
    | some id => id.toUTF8.data.toList
    | none => []

/-- `Ratelimiter::from`. -/
def Ratelimiter.from_ (hash : List UInt8 → UInt64) (clock : Clock) (map : Table UInt64 Entry)
    (identifier : String) (limit : Nat) (bucket : String × Option String) :
    Table UInt64 Entry × Except Ratelimiter Ratelimiter :=
  let key := hash (stream identifier bucket)
  let entry := Entry.from_ map key clock.made
  let remaining := entry.getRemaining limit clock.remaining
  let reset := entry.leftUntilReset clock.left
  if remaining = 0 then (map, .error { key, limit, remaining, reset })
  else
    let entry := entry.deduct clock
    (map.insert key entry,
      .ok { key, limit, remaining := remaining - 1, reset := entry.leftUntilReset clock.leftAfter })

/-- A request, and what the clock says while it is counted. -/
structure Call where
  request : Request
  clock : Clock

namespace Call

def bucket (call : Call) : String × Option String := resolveBucket call.request

def limit (call : Call) : Nat := resolveBucketLimit call.bucket.1

def key (hash : List UInt8 → UInt64) (call : Call) : UInt64 :=
  hash (stream call.request.identifier call.bucket)

/-- What the call is counted under. -/
def counted (call : Call) : String × String × Option String :=
  (call.request.identifier, call.bucket)

/-- The entry that the call finds or makes. -/
def entry (hash : List UInt8 → UInt64) (map : Table UInt64 Entry) (call : Call) : Entry :=
  Entry.from_ map (call.key hash) call.clock.made

/-- The call takes more from its limit than there is. -/
def Underflows (hash : List UInt8 → UInt64) (map : Table UInt64 Entry) (call : Call) : Prop :=
  call.clock.remaining ≤ (call.entry hash map).reset ∧ call.limit < (call.entry hash map).used

end Call

def fromRequest (hash : List UInt8 → UInt64) (map : Table UInt64 Entry) (call : Call) :
    Table UInt64 Entry × Except Ratelimiter Ratelimiter :=
  Ratelimiter.from_ hash call.clock map call.request.identifier call.limit call.bucket

/-! ## The bytes of a request -/

theorem stream_eq_toUTF8 (identifier : String) (bucket : String × Option String) :
    stream identifier bucket = (identifier ++ written bucket).toUTF8.data.toList := by
  obtain ⟨name, resource⟩ := bucket
  unfold stream written
  cases resource with
  | none => simp
  | some id => simp [append_assoc]

theorem stream_eq_iff {identifier identifier' : String} {b b' : String × Option String} :
    stream identifier b = stream identifier' b' ↔
      identifier ++ written b = identifier' ++ written b' := by
  rw [stream_eq_toUTF8, stream_eq_toUTF8]
  constructor
  · intro hbts
    refine String.toByteArray_inj.mp (ByteArray.ext (Array.toList_inj.mp ?_))
    exact hbts
  · intro htex
    rw [htex]

/-- Two requests that are counted apart and read the same: under one identifier, by the names of
their buckets, and under two, when the longer one goes on as the other's bucket does. -/
inductive Confusable (request request' : Request) : Prop where
  | bucket (hidentifier : request.identifier = request'.identifier)
      (hmeets : Meets (resolveBucket request) (resolveBucket request'))
  | identifier (more : String) (hmore : more ≠ "")
      (hidentifier : request'.identifier = request.identifier ++ more)
      (hwritten : written (resolveBucket request) = more ++ written (resolveBucket request'))

/-- No bytes of two of the calls that differ have the same hash. -/
def CollisionFree (hash : List UInt8 → UInt64) (calls : List Call) : Prop :=
  ∀ call ∈ calls, ∀ call' ∈ calls, call.key hash = call'.key hash →
    stream call.request.identifier call.bucket = stream call'.request.identifier call'.bucket

variable {request request' : Request}

theorem Confusable.texts_eq (h : Confusable request request') :
    request.identifier ++ written (resolveBucket request) =
      request'.identifier ++ written (resolveBucket request') := by
  cases h with
  | bucket hide hmeet => rw [hide, hmeet.written_eq]
  | identifier more hmr hide hwr => rw [hide, hwr, String.append_assoc]

variable {call : Call}

/-- Confusable requests are counted apart. -/
theorem Confusable.counted_ne {call' : Call} (h : Confusable call.request call'.request) :
    call.counted ≠ call'.counted := by
  intro heq
  have hid : call.request.identifier = call'.request.identifier := congrArg Prod.fst heq
  have hbuc : resolveBucket call.request = resolveBucket call'.request := congrArg Prod.snd heq
  cases h with
  | bucket _ hmeet => exact hmeet.ne hbuc
  | identifier more hmr hide _ =>
    rw [hide] at hid
    have htex := congrArg String.toList hid
    rw [String.toList_append] at htex
    exact hmr (String.toList_inj.mp (List.self_eq_append_right.mp htex))

theorem same_or_confusable_of_le (htex : request.identifier ++ written (resolveBucket request) =
      request'.identifier ++ written (resolveBucket request'))
    (hle : request.identifier.toList.length ≤ request'.identifier.toList.length) :
    (request.identifier, resolveBucket request) = (request'.identifier, resolveBucket request') ∨
      Confusable request request' ∨ Confusable request' request := by
  have hlis := congrArg String.toList htex
  rw [String.toList_append, String.toList_append] at hlis
  obtain ⟨more, hmr⟩ := List.prefix_of_prefix_length_le ⟨_, hlis⟩ (List.prefix_append _ _) hle
  have hide : request'.identifier = request.identifier ++ String.ofList more := by
    refine String.toList_inj.mp ?_
    rw [String.toList_append, String.toList_ofList, hmr]
  have hwr : written (resolveBucket request) =
      String.ofList more ++ written (resolveBucket request') := by
    refine String.toList_inj.mp ?_
    rw [← hmr, append_assoc] at hlis
    rw [String.toList_append, String.toList_ofList]
    exact List.append_cancel_left hlis
  by_cases hemp : String.ofList more = ""
  · rw [hemp, String.append_empty] at hide
    rw [hemp, String.empty_append] at hwr
    have hnam := (written_eq_iff (resolved_bucket request) (resolved_bucket request')).mp hwr
    rcases hnam with hsm | hmeet | hmeet
    · exact .inl (by rw [hide, hsm])
    · exact .inr (.inl (.bucket hide.symm hmeet))
    · exact .inr (.inr (.bucket hide hmeet))
  · exact .inr (.inl (.identifier _ hemp hide hwr))

/-- **Which requests read the same**: those that are counted together, and the confusable ones. -/
theorem texts_eq_iff (request request' : Request) :
    request.identifier ++ written (resolveBucket request) =
        request'.identifier ++ written (resolveBucket request') ↔
      (request.identifier, resolveBucket request) = (request'.identifier, resolveBucket request') ∨
        Confusable request request' ∨ Confusable request' request := by
  constructor
  · intro htex
    rcases le_total request.identifier.toList.length request'.identifier.toList.length
      with hle | hle
    · exact same_or_confusable_of_le htex hle
    · rcases same_or_confusable_of_le htex.symm hle with hsm | hcon | hcon
      · exact .inl hsm.symm
      · exact .inr (.inr hcon)
      · exact .inr (.inl hcon)
  · rintro (hsm | hcon | hcon)
    · obtain ⟨hide, hbuc⟩ := Prod.mk.inj hsm
      rw [hide, hbuc]
    · exact hcon.texts_eq
    · exact hcon.texts_eq.symm

/-! ## What a request keeps -/

/-- An entry is that of one of the calls, and used no more than the limit of any of them. -/
def Within (hash : List UInt8 → UInt64) (calls : List Call) (key : UInt64) (entry : Entry) : Prop :=
  (∃ call ∈ calls, call.key hash = key) ∧
    ∀ call ∈ calls, call.key hash = key → entry.used ≤ call.limit

/-- Every entry is within its limit. -/
def Kept (hash : List UInt8 → UInt64) (calls : List Call) (map : Table UInt64 Entry) : Prop :=
  ∀ key entry, map.get key = some entry → Within hash calls key entry

/-- The counters are separate along the calls. -/
structure Separate (hash : List UInt8 → UInt64) (calls : List Call) : Prop where
  /-- Calls under one key are counted under the same identifier, bucket and resource. -/
  entries : ∀ call ∈ calls, ∀ call' ∈ calls, call.key hash = call'.key hash →
    call.counted = call'.counted
  used : Kept hash calls (execAll (fromRequest hash) ∅ calls)
  remaining : ∀ turn ∈ historyOf (fromRequest hash) ∅ calls, ¬ turn.2.Underflows hash turn.1

theorem limit_range (call : Call) : 0 < call.limit ∧ call.limit < 4294967296 :=
  resolveBucketLimit_range _

theorem deduct_used_le {entry : Entry} {limit : Nat} (clock : Clock)
    (hlim : 0 < limit ∧ limit < 4294967296) (hus : entry.used ≤ limit)
    (hrem : entry.getRemaining limit clock.remaining ≠ 0) : (entry.deduct clock).used ≤ limit := by
  unfold Entry.deduct
  by_cases hexp : clock.deducted > entry.reset
  · rw [if_pos hexp]
    exact hlim.1
  · have hop : ¬ clock.remaining > entry.reset := by
      have := clock.remaining_le
      have := clock.left_le
      omega
    unfold Entry.getRemaining subU32 at hrem
    rw [if_neg hop] at hrem
    rw [if_neg hexp]
    show addU32 entry.used 1 ≤ limit
    unfold addU32
    omega

variable {hash : List UInt8 → UInt64} {calls : List Call} {map : Table UInt64 Entry}

theorem fromRequest_fst (call : Call) : (fromRequest hash map call).1 =
      if (call.entry hash map).getRemaining call.limit call.clock.remaining = 0 then map
      else map.insert (call.key hash) ((call.entry hash map).deduct call.clock) := by
  exact apply_ite Prod.fst _ _ _

theorem Kept.entry_used_le (hkp : Kept hash calls map) (hcl : call ∈ calls) :
    (call.entry hash map).used ≤ call.limit := by
  unfold Call.entry Entry.from_
  cases hfnd : map.get (call.key hash) with
  | none => exact Nat.zero_le _
  | some entry => exact (hkp _ entry hfnd).2 call hcl rfl

theorem Kept.not_underflows (hkp : Kept hash calls map) (hcl : call ∈ calls) :
    ¬ call.Underflows hash map := fun h => absurd (hkp.entry_used_le hcl) (Nat.not_le.mpr h.2)

/-- **One request keeps every entry within its limit**, when only what is counted together has the
same key. -/
theorem kept_fromRequest (hsm : ∀ call ∈ calls, ∀ call' ∈ calls, call.key hash = call'.key hash →
      call.counted = call'.counted) (hcl : call ∈ calls) (hkp : Kept hash calls map) :
    Kept hash calls (fromRequest hash map call).1 := by
  rw [fromRequest_fst]
  split
  · exact hkp
  · rename_i hrem
    refine forall_insert (P := Within hash calls) hkp ?_
    refine ⟨⟨call, hcl, rfl⟩, fun call' hcl' hkey => ?_⟩
    have hcnt := hsm call' hcl' call hcl hkey
    have hlim : call'.limit = call.limit :=
      congrArg (fun counted : String × String × Option String => resolveBucketLimit counted.2.1)
        hcnt
    rw [hlim]
    exact deduct_used_le call.clock (limit_range call) (hkp.entry_used_le hcl) hrem

theorem kept_empty : Kept hash calls ∅ := by
  intro key entry hfnd
  exact nomatch hfnd

theorem admitsAll_of_subset {inputs : List Call} (hsub : ∀ call ∈ inputs, call ∈ calls) :
    ∀ map, AdmitsAll (fromRequest hash) (fun _ call => call ∈ calls) map inputs := by
  induction inputs with
  | nil => exact fun _ => trivial
  | cons call inputs ih =>
    intro map
    exact ⟨hsub call mem_cons_self,
      ih (fun call' hcl' => hsub call' (mem_cons_of_mem _ hcl')) _⟩

/-- **The counters are separate exactly when no two requests can be confused**, of any sequence of
calls that no collision of the hash disturbs. -/
theorem separate_iff (hash : List UInt8 → UInt64) (calls : List Call)
    (hhash : CollisionFree hash calls) :
    Separate hash calls ↔
      ∀ call ∈ calls, ∀ call' ∈ calls, ¬ Confusable call.request call'.request := by
  constructor
  · intro hseparate call hcall call' hcall' hconfused
    have hkey : call.key hash = call'.key hash :=
      congrArg hash (stream_eq_iff.mpr hconfused.texts_eq)
    exact hconfused.counted_ne (hseparate.entries call hcall call' hcall' hkey)
  · intro hclear
    have hsame : ∀ call ∈ calls, ∀ call' ∈ calls, call.key hash = call'.key hash →
        call.counted = call'.counted := by
      intro call hcall call' hcall' hkey
      have htexts := stream_eq_iff.mp (hhash call hcall call' hcall' hkey)
      rcases (texts_eq_iff _ _).mp htexts with heq | hconfused | hconfused
      · exact heq
      · exact absurd hconfused (hclear call hcall call' hcall')
      · exact absurd hconfused (hclear call' hcall' call hcall)
    have hadmits : AdmitsAll (fromRequest hash) (fun _ call => call ∈ calls) ∅ calls :=
      admitsAll_of_subset (fun _ hcall => hcall) ∅
    have hrun := Run.of_admitsAll hadmits
    have hstep : ∀ map call, call ∈ calls → Kept hash calls map →
        Kept hash calls (fromRequest hash map call).1 :=
      fun map call hcall => kept_fromRequest hsame hcall
    refine ⟨hsame, hrun.invariant hstep kept_empty, ?_⟩
    rintro ⟨map, call⟩ hturn
    obtain ⟨before, after, hhistory⟩ := append_of_mem hturn
    rw [hhistory] at hrun
    obtain ⟨hbefore, hcall, -⟩ := hrun.split_at
    exact (hbefore.invariant hstep kept_empty).not_underflows hcall

/-! ## Annotations and their consent -/

/-- One address asks below a channel. -/
def below (method : Method) (segments : List String) : Call where
  request := { identifier := "203.0.113.7", method, segments := "channels" :: segments }
  clock := Clock.still 1700000000000

/-- Two callers in two channels. -/
def separateCalls : List Call :=
  [below .post ["01CHANNEL", "messages"], below .post ["02CHANNEL", "annotations"],
    below .put ["01CHANNEL", "annotations", "allow"]]

theorem separate_iff_three_calls : Separate SipHash.hash separateCalls ↔
      ∀ call ∈ separateCalls, ∀ call' ∈ separateCalls, ¬ Confusable call.request call'.request :=
  separate_iff SipHash.hash separateCalls (by unfold CollisionFree; decide)

/-- Eleven annotations in a channel that is named after the other bucket's ending, and then a
consent. -/
def confusedCalls : List Call :=
  List.replicate 11 (below .post ["_consent01CHANNEL", "annotations"]) ++
    [below .put ["01CHANNEL", "annotations", "allow"]]

/-- The consent finds eleven uses of its limit of ten, and is told that almost `2 ^ 32` remain. -/
theorem consent_underflows :
    CollisionFree SipHash.hash confusedCalls ∧ ¬ Separate SipHash.hash confusedCalls ∧
      (confusedCalls.map Call.counted).dedup =
        [("203.0.113.7", "annotations", some "_consent01CHANNEL"),
          ("203.0.113.7", "annotations_consent", some "01CHANNEL")] ∧
      (historyOf (fromRequest SipHash.hash) ∅ confusedCalls).any
        (fun turn => decide ((turn.2.entry SipHash.hash turn.1).used = 11 ∧ turn.2.limit = 10 ∧
          ((fromRequest SipHash.hash turn.1 turn.2).2.toOption.map Ratelimiter.remaining) =
            some 4294967294)) := by
  refine ⟨by unfold CollisionFree; decide, ?_, by decide, by decide⟩
  intro hseparate
  have hentries := hseparate.entries
  revert hentries
  decide

/-! ## What a window admits -/

/-- The call is admitted under the key. -/
def admitted (hash : List UInt8 → UInt64) (key : UInt64) (turn : Table UInt64 Entry × Call) : Bool :=
  decide (turn.2.key hash = key) && (fromRequest hash turn.1 turn.2).2.isOk

/-- What an entry admits up to `b`: what is left of it, and a limit more where it starts again. -/
def spare (limit b : Nat) : Option Entry → Nat
  | none => 2 * limit
  | some entry => limit - entry.used + if b ≤ entry.reset then 0 else limit

theorem spare_le (limit b : Nat) (entry : Option Entry) : spare limit b entry ≤ 2 * limit := by
  cases entry with
  | none => exact le_rfl
  | some entry =>
    simp only [spare]
    split <;> omega

variable {call : Call} {a limit : ℕ} {key : UInt64}

theorem deduct_spares {entry : Entry} {clock : Clock} (hlim : 0 < limit ∧ limit < 4294967296)
    (hus : entry.used ≤ limit) (ha : a ≤ clock.made) (hb : clock.leftAfter ≤ a + 10 * 1000)
    (hrem : entry.getRemaining limit clock.remaining ≠ 0) :
    spare limit (a + 10 * 1000) (some (entry.deduct clock)) + 1 ≤
      spare limit (a + 10 * 1000) (some entry) := by
  obtain ⟨made, remaining, left, deducted, renewed, leftAfter, h1, h2, h3, h4, h5⟩ := clock
  unfold Entry.deduct
  dsimp only at ha hb hrem ⊢
  split
  · -- the entry starts again before the window ends, and then not again
    have hnew : a + 10 * 1000 ≤ renewed + 10 * 1000 := by omega
    have hold : ¬ a + 10 * 1000 ≤ entry.reset := by omega
    simp only [spare, if_pos hnew, if_neg hold]
    omega
  · simp only [Entry.getRemaining, subU32, if_neg (show ¬ remaining > entry.reset by omega)] at hrem
    simp only [spare, addU32]
    omega

theorem admitted_iff : admitted hash key (map, call) = true ↔ call.key hash = key ∧
    (call.entry hash map).getRemaining call.limit call.clock.remaining ≠ 0 := by
  unfold admitted fromRequest Ratelimiter.from_ Call.entry Call.key
  dsimp only
  split <;> simp [Except.isOk, Except.toBool, *]

/-- **An admitted call is paid for.** -/
theorem spare_fromRequest (hkp : Kept hash calls map) (hcl : call ∈ calls)
    (ha : a ≤ call.clock.made) (hb : call.clock.leftAfter ≤ a + 10 * 1000)
    (hlim : call.key hash = key → call.limit = limit) :
    spare limit (a + 10 * 1000) ((fromRequest hash map call).1.get key) +
        (if admitted hash key (map, call) then 1 else 0) ≤
      spare limit (a + 10 * 1000) (map.get key) := by
  rw [fromRequest_fst]
  split
  · rename_i hrem
    rw [if_neg fun hadm => (admitted_iff.mp hadm).2 hrem]
    exact le_rfl
  · rename_i hrem
    rw [get_insert]
    split
    · rename_i hkey
      subst hkey
      obtain rfl := hlim rfl
      have hsp := deduct_spares (limit_range call) (hkp.entry_used_le hcl) ha hb hrem
      rw [if_pos (admitted_iff.mpr ⟨rfl, hrem⟩)]
      refine hsp.trans ?_
      unfold Call.entry Entry.from_
      cases map.get (call.key hash) with
      | none => exact spare_le _ _ _
      | some entry => exact le_rfl
    · rw [if_neg fun hadm => ‹¬ _› (admitted_iff.mp hadm).1.symm]
      exact le_rfl

/-- **Ten seconds admit at most twice the limit**, whatever came before, where what has one key is
counted together. -/
theorem admitted_in_ten_seconds (hash : List UInt8 → UInt64) (before calls : List Call) (a : ℕ)
    (hsame : ∀ call ∈ before ++ calls, ∀ call' ∈ before ++ calls,
      call.key hash = call'.key hash → call.counted = call'.counted)
    (hwindow : ∀ call ∈ calls, a ≤ call.clock.made ∧ call.clock.leftAfter ≤ a + 10 * 1000)
    (hcall : call ∈ calls) :
    (historyOf (fromRequest hash) (execAll (fromRequest hash) ∅ before) calls).countP
      (admitted hash (call.key hash)) ≤ 2 * call.limit := by
  have hstep : ∀ map call, call ∈ before ++ calls → Kept hash (before ++ calls) map →
      Kept hash (before ++ calls) (fromRequest hash map call).1 :=
    fun map call hcl => kept_fromRequest hsame hcl
  have hbefore : Kept hash (before ++ calls) (execAll (fromRequest hash) ∅ before) :=
    (Run.of_admitsAll (admitsAll_of_subset (fun _ hcl => mem_append_left _ hcl) ∅)).invariant
      hstep kept_empty
  have hspare : ∀ inputs map, (∀ call ∈ inputs, call ∈ calls) → Kept hash (before ++ calls) map →
      (historyOf (fromRequest hash) map inputs).countP (admitted hash (call.key hash)) ≤
        spare call.limit (a + 10 * 1000) (map.get (call.key hash)) := by
    intro inputs
    induction inputs with
    | nil => exact fun _ _ _ => Nat.zero_le _
    | cons first inputs ih =>
      intro map hsub hkept
      have hfirst := hsub first mem_cons_self
      have hmem := mem_append_right before hfirst
      obtain ⟨ha, hb⟩ := hwindow first hfirst
      rw [historyOf, List.countP_cons]
      refine (Nat.add_le_add_right (ih _ (fun call hcl => hsub call (mem_cons_of_mem _ hcl))
        (hstep map first hmem hkept)) _).trans (spare_fromRequest hkept hmem ha hb fun hkey => ?_)
      exact congrArg (fun counted : String × String × Option String =>
        resolveBucketLimit counted.2.1) (hsame first hmem call (mem_append_right _ hcall) hkey)
  exact (hspare calls _ (fun _ hcl => hcl) hbefore).trans (spare_le _ _ _)

theorem admitted_in_ten_seconds_three_calls :
    (historyOf (fromRequest SipHash.hash) (execAll (fromRequest SipHash.hash) ∅ separateCalls)
      separateCalls).countP (admitted SipHash.hash ((below .post ["02CHANNEL", "annotations"]).key
        SipHash.hash)) ≤ 2 * (below .post ["02CHANNEL", "annotations"]).limit :=
  admitted_in_ten_seconds SipHash.hash separateCalls separateCalls 1700000000000 (by decide)
    (by decide) (mem_cons_of_mem _ mem_cons_self)

end SlogaBackend.Ratelimits
