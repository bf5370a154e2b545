import SlogaBackend.Lib.Processes
import SlogaBackend.Voice.State

/-!
# The stray keys of the reconcile sweep

The third step of the sweep looks for `joined_at` keys whose user has no entry for the channel or
server they are scoped by. It reads the entries and, if there is none, deletes the keys.

The step counts on a join to write the user's entry before the keys. `create_voice_state` writes
it after them. So a join that has begun is a stray to the sweep until its last command, and one
that comes between the sweep's read and its delete loses its keys too. Apart from these two cases
(`Settled`) no live join loses a key.

The keys it deletes are spelled out in the step, and two of the nine are not among them.
-/

namespace SlogaBackend.Voice
namespace StraySweep

/-- A key of a user's state, or the pointer. -/
inductive Key where
  | pointer (key : UniqueKey)
  | state (field : StateKey) (key : UniqueKey)
  deriving DecidableEq

def Key.uniqueKey : Key → UniqueKey
  | .pointer key => key
  | .state _ key => key

/-- Whether a key is there. -/
def has (s : Store) : Key → Bool
  | .pointer key => (s.pointers.get key).isSome
  | .state field key => s.hasState key field

def del (s : Store) : Key → Store
  | .pointer key => { s with pointers := s.pointers.erase key }
  | .state .joinedAt key => { s with joinedAt := s.joinedAt.erase key }
  | .state (.flag flag) key => { s with flags := s.flags.erase (flag, key) }

/-- The keys the step deletes. -/
def strayKeys (key : UniqueKey) : List Key :=
  [.state .joinedAt key, .state (.flag .isPublishing) key, .state (.flag .isReceiving) key,
    .state (.flag .screensharing) key, .state (.flag .camera) key, .state (.flag .screenVideo) key,
    .state (.flag .recording) key, .pointer key]

/-- The key a command of a join writes. -/
def written : Write → Option Key
  | .setPointer key _ => some (.pointer key)
  | .setJoinedAt key _ => some (.state .joinedAt key)
  | .setFlag flag key _ => some (.state (.flag flag) key)
  | _ => none

/-! ## The calls -/

inductive Call where
  | write (write : Write)
  | deleteVoiceState (channel : UserVoiceChannel) (user : String)
  | getUserVoiceChannels (user : String)
  | del (keys : List Key)
  deriving DecidableEq

@[reducible] def Reply : Call → Type
  | .write _ => Unit
  | .deleteVoiceState .. => Except TeardownError Teardown
  | .getUserVoiceChannels _ => List UserVoiceChannel
  | .del _ => Unit

def perform : ℕ → (c : Call) → Store → Store × Reply c
  | _, .write write, s => (s.write write, ())
  | _, .deleteVoiceState channel user, s => s.deleteVoiceState channel user .user
  | _, .getUserVoiceChannels user, s => (s, s.getUserVoiceChannels user)
  | _, .del keys, s => (keys.foldl del s, ())

/-! ## Joins, leaves and the sweep -/

abbrev Program (α : Type) := Prog TeardownError Call Reply α

def pipeline : List Write → Program Unit
  | [] => pure ()
  | write :: writes => do
    op (Call.write write)
    pipeline writes

/-- Whether an entry claims the keys. -/
def claims (key : UniqueKey) (channel : UserVoiceChannel) : Bool := channel.parent = key.parent

def sweepKey (key : UniqueKey) : Program Unit := do
  let fresh ← op (Call.getUserVoiceChannels key.user)
  if fresh.any (claims key) then return () else op (Call.del (strayKeys key))

def sweepKeys : List UniqueKey → Program Unit
  | [] => pure ()
  | key :: keys => do
    sweepKey key
    sweepKeys keys

/-- A sweep has the keys its scan gave it: some twice perhaps, and some of them gone since. -/
inductive Request where
  | join (channel : UserVoiceChannel) (user : String) (joinedAt : Timestamp)
  | leave (channel : UserVoiceChannel) (user : String)
  | sweep (scanned : List UniqueKey)

def Request.body : Request → Program Unit
  | .join channel user joinedAt => pipeline (createVoiceState channel user joinedAt)
  | .leave channel user => do
    let _ ← check (← op (Call.deleteVoiceState channel user))
    return ()
  | .sweep scanned => sweepKeys scanned

abbrev Sweeping := System Store Request TeardownError Call Reply Unit

def exec : Sweeping → Event Request → Sweeping × Unit := System.exec perform Request.body

/-! ## Alone -/

/-- What a sweep makes of the store with nobody else around. -/
def swept (s : Store) (scanned : List UniqueKey) : Store :=
  ((sweepKeys scanned).alone perform 0 s).1

/-- The scan of an unchanging store finds every `joined_at` key. -/
def Scans (s : Store) (scanned : List UniqueKey) : Prop :=
  ∀ key, key ∈ scanned ↔ (s.joinedAt.get key).isSome

/-- Whether an entry of the user claims the keys. -/
def Claimed (s : Store) (key : UniqueKey) : Prop :=
  ∃ channel ∈ s.getUserVoiceChannels key.user, claims key channel

instance (s : Store) (key : UniqueKey) : Decidable (Claimed s key) :=
  inferInstanceAs (Decidable (∃ channel ∈ s.getUserVoiceChannels key.user, claims key channel))

/-- After the sweep, what is left of the keys that had a `joined_at` is claimed. -/
def LeavesClaimed (s s' : Store) : Prop :=
  ∀ key, (s.joinedAt.get key).isSome →
    (∃ k, (k = .pointer key ∨ ∃ field ∈ voiceStateKeyPrefixes, k = .state field key) ∧ has s' k) →
      Claimed s' key

/-- No stray has a key that the sweep does not know. -/
def OnlyKnown (s : Store) : Prop :=
  ∀ key, (s.joinedAt.get key).isSome → ¬ Claimed s key →
    ∀ field ∈ voiceStateKeyPrefixes, .state field key ∉ strayKeys key → ¬ has s (.state field key)

theorem has_del (s : Store) (k k' : Key) : has (del s k) k' ↔ has s k' ∧ k' ≠ k := by
  cases k with
  | pointer key =>
    cases k' with
    | pointer key' =>
      show (Option.isSome ((s.pointers.erase key).get key') = true) ↔ _
      rw [get_erase]
      by_cases hkey : key' = key <;> simp [has, hkey]
    | state field' key' => cases field' <;> simp [has, del, Store.hasState]
  | state field key =>
    cases field with
    | joinedAt =>
      cases k' with
      | pointer key' => simp [has, del]
      | state field' key' =>
        cases field' with
        | flag flag' => simp [has, del, Store.hasState]
        | joinedAt =>
          show (Option.isSome ((s.joinedAt.erase key).get key') = true) ↔ _
          rw [get_erase]
          by_cases hkey : key' = key <;> simp [has, Store.hasState, hkey]
    | flag flag =>
      cases k' with
      | pointer key' => simp [has, del]
      | state field' key' =>
        cases field' with
        | joinedAt => simp [has, del, Store.hasState]
        | flag flag' =>
          show (Option.isSome ((s.flags.erase (flag, key)).get (flag', key')) = true) ↔ _
          rw [get_erase]
          by_cases hkey : (flag', key') = (flag, key)
          · cases hkey
            simp [has, Store.hasState]
          · simp only [hkey, if_false, has, Store.hasState]
            simp_all

theorem has_foldl_del (keys : List Key) (s : Store) (k : Key) :
    has (keys.foldl del s) k ↔ has s k ∧ k ∉ keys := by
  induction keys generalizing s with
  | nil => simp
  | cons key keys ih => simp only [foldl_cons, ih, has_del, mem_cons, not_or, and_assoc]

theorem vc_foldl_del (keys : List Key) (s : Store) : (keys.foldl del s).vc = s.vc := by
  induction keys generalizing s with
  | nil => rfl
  | cons key keys ih =>
    refine (ih _).trans ?_
    obtain key | ⟨_ | flag, key⟩ := key <;> rfl

theorem claimed_congr {s s' : Store} (hvc : s'.vc = s.vc) (key : UniqueKey) :
    Claimed s' key ↔ Claimed s key := by
  simp only [Claimed, Store.mem_getUserVoiceChannels, hvc]

theorem alone_sweepKey (s : Store) (key : UniqueKey) : (sweepKey key).alone perform 0 s =
      (if Claimed s key then s else (strayKeys key).foldl del s, .ok ()) := by
  have hany : (s.getUserVoiceChannels key.user).any (claims key) = decide (Claimed s key) := by
    rw [Bool.eq_iff_iff, any_eq_true, decide_eq_true_eq]
    rfl
  show ((if (s.getUserVoiceChannels key.user).any (claims key) then return ()
    else op (Call.del (strayKeys key)) : Program Unit).alone perform 0 s) = _
  rw [hany]
  by_cases hcla : Claimed s key
  · rw [if_pos (decide_eq_true hcla), if_pos hcla]
    rfl
  · rw [if_neg (by simpa using hcla), if_neg hcla]
    rfl

theorem swept_cons (s : Store) (key : UniqueKey) (keys : List UniqueKey) : swept s (key :: keys) =
      swept (if Claimed s key then s else (strayKeys key).foldl del s) keys :=
  congrArg Prod.fst (alone_bind_ok (alone_sweepKey s key))

theorem swept_vc (scanned : List UniqueKey) (s : Store) : (swept s scanned).vc = s.vc := by
  induction scanned generalizing s with
  | nil => rfl
  | cons key keys ih =>
    rw [swept_cons, ih]
    split_ifs
    · rfl
    · exact vc_foldl_del _ _

/-- **What the sweep deletes.** -/
theorem has_swept (scanned : List UniqueKey) (s : Store) (k : Key) : has (swept s scanned) k ↔
      has s k ∧ ∀ key ∈ scanned, ¬ Claimed s key → k ∉ strayKeys key := by
  induction scanned generalizing s with
  | nil => simp [swept, sweepKeys, Prog.alone, Pure.pure]
  | cons key keys ih =>
    rw [swept_cons, ih, List.forall_mem_cons]
    split_ifs with hcla
    · simp [hcla]
    · simp only [has_foldl_del, claimed_congr (vc_foldl_del (strayKeys key) s), hcla,
        not_false_eq_true, forall_true_left, and_assoc]

theorem uniqueKey_of_mem_strayKeys {k : Key} {key : UniqueKey} (hmem : k ∈ strayKeys key) :
    k.uniqueKey = key := by
  simp only [strayKeys, mem_cons, not_mem_nil, or_false] at hmem
  rcases hmem with rfl | rfl | rfl | rfl | rfl | rfl | rfl | rfl <;> rfl

theorem pointer_mem_strayKeys (key : UniqueKey) : .pointer key ∈ strayKeys key := by
  simp [strayKeys]

/-- **Alone the sweep leaves no stray exactly when no stray has a key that it does not know.** -/
theorem leavesClaimed_iff {s : Store} {scanned : List UniqueKey} (hscan : Scans s scanned) :
    LeavesClaimed s (swept s scanned) ↔ OnlyKnown s := by
  have hclaims : ∀ key, Claimed (swept s scanned) key ↔ Claimed s key :=
    claimed_congr (swept_vc scanned s)
  -- a key of a stray is left only if the list does not have it
  have hlf : ∀ key k, k.uniqueKey = key → (s.joinedAt.get key).isSome → ¬ Claimed s key →
      (has (swept s scanned) k ↔ has s k ∧ k ∉ strayKeys key) := by
    intro key k hk hjoin hstr
    rw [has_swept]
    refine and_congr_right fun _ => ⟨fun h => h key ((hscan key).mpr hjoin) hstr, ?_⟩
    intro hunk key' _ _ hmem
    obtain rfl : key = key' := hk.symm.trans (uniqueKey_of_mem_strayKeys hmem)
    exact hunk hmem
  constructor
  · intro hleav key hjoin hstr field hfiel hunk hhas
    have hkp : has (swept s scanned) (.state field key) :=
      (hlf key _ rfl hjoin hstr).mpr ⟨hhas, hunk⟩
    exact hstr ((hclaims key).mp (hleav key hjoin ⟨_, .inr ⟨field, hfiel, rfl⟩, hkp⟩))
  · rintro hon key hjoin ⟨k, hk, hkp⟩
    by_contra hstr
    rw [hclaims] at hstr
    rcases hk with rfl | ⟨field, hfiel, rfl⟩
    · exact ((hlf key _ rfl hjoin hstr).mp hkp).2 (pointer_mem_strayKeys key)
    · obtain ⟨hhas, hunk⟩ := (hlf key _ rfl hjoin hstr).mp hkp
      exact hon key hjoin hstr field hfiel hunk hhas

/-! ## Among joins and leaves -/

/-- The event writes the key for a join. -/
def Writes (sys : Sweeping) (event : Event Request) (channel : UserVoiceChannel) (user : String)
    (k : Key) : Prop :=
  ∃ pid joinedAt write rest, event = .step pid ∧
    sys.processes.get pid = some ⟨.join channel user joinedAt, some (.call (.write write) rest)⟩ ∧
      written write = some k

/-- The event tears the user's state down. -/
def Leaves (sys : Sweeping) (event : Event Request) (channel : UserVoiceChannel) (user : String) :
    Prop :=
  sys.calls event = some (.deleteVoiceState channel user)

/-- **What the sweep is for.** Where it deletes a key that a join wrote, the user has left since. -/
def KeepsJoins (history : List (Sweeping × Event Request)) : Prop :=
  ∀ before s event after, history = before ++ (s, event) :: after →
    ∀ keys, s.calls event = some (.del keys) → ∀ k ∈ keys, has s.store k →
      ∀ early s₀ event₀ late, before = early ++ (s₀, event₀) :: late →
        ∀ channel user, Writes s₀ event₀ channel user k →
          ∃ entry ∈ late, Leaves entry.1 entry.2 channel user

/-- A join that has made its first command and not its last. -/
def midway (key : UniqueKey) (process : Process Request TeardownError Call Reply Unit) : Bool :=
  match process.request, process.next? with
  | .join channel user _, some (.write write) =>
    uniqueKey channel user = key && write ≠ .setPointer key channel.id
  | _, _ => false

/-- No request is cut short. -/
def NoCrash : Event Request → Prop
  | .crash _ => False
  | _ => True

instance : DecidablePred NoCrash
  | .crash _ => isFalse id
  | .start .. => isTrue trivial
  | .step _ => isTrue trivial

/-- Where the sweep deletes keys, the entry it has not found is still missing, and no join is on
its way there. -/
def Settled (sys : Sweeping) (event : Event Request) : Prop :=
  NoCrash event ∧ match sys.calls event with
    | some (.del keys) =>
      ∀ k ∈ keys, ¬ Claimed sys.store k.uniqueKey ∧
        ∀ process ∈ sys.processes.values, midway k.uniqueKey process = false
    | _ => True

instance (sys : Sweeping) (event : Event Request) : Decidable (Settled sys event) := by
  unfold Settled
  cases sys.calls event with
  | none => infer_instance
  | some c => cases c <;> infer_instance

variable {event : Event Request} {channel : UserVoiceChannel} {pid : ℕ} {request : Request}

section

variable {sys : Sweeping} (hsettled : Settled sys event) {keys : List Key}
  (hcalls : sys.calls event = some (.del keys)) {k : Key} (hk : k ∈ keys)
include hsettled hcalls hk

theorem Settled.del : ¬ Claimed sys.store k.uniqueKey ∧
      ∀ process ∈ sys.processes.values, midway k.uniqueKey process = false := by
  have h := hsettled.2
  rw [hcalls] at h
  exact h k hk

/-- The user has an entry for the channel, or a join is about to write it. -/
def Live (sys : Sweeping) (channel : UserVoiceChannel) (user : String) : Prop :=
  (user, channel) ∈ sys.store.vc ∨ ∃ pid joinedAt write rest, sys.processes.get pid =
        some ⟨.join channel user joinedAt, some (.call (.write write) rest)⟩ ∧
      write ≠ .setPointer (uniqueKey channel user) channel.id

/-- Every join is somewhere in its pipeline. -/
def Pipelined (sys : Sweeping) : Prop :=
  ∀ pid channel user joinedAt prog,
    sys.processes.get pid = some ⟨.join channel user joinedAt, some prog⟩ →
      ∃ written left, createVoiceState channel user joinedAt = written ++ left ∧
        prog = pipeline left

theorem not_live_of_settled {user : String} (hkey : k.uniqueKey = uniqueKey channel user) :
    ¬ Live sys channel user := by
  obtain ⟨hcla, hmid⟩ := hsettled.del hcalls hk
  rw [hkey] at hcla hmid
  rintro (hent | ⟨pid, joinedAt, write, rest, hg, hnx⟩)
  · exact hcla ⟨channel, Store.mem_getUserVoiceChannels.mpr hent, decide_eq_true rfl⟩
  · have hnot := hmid _ (mem_values_of_get hg)
    simp only [midway, Process.next?, Bool.and_eq_false_iff, decide_eq_false_iff_not,
      not_true_eq_false, false_or, not_not] at hnot
    exact hnx hnot

end

theorem tail_createVoiceState (channel : UserVoiceChannel) (user : String) (joinedAt : Timestamp) :
    ∀ write ∈ (createVoiceState channel user joinedAt).tail,
      write ≠ .setPointer (uniqueKey channel user) channel.id := by
  simp [createVoiceState]

variable {user : String} {joinedAt : Timestamp} {write : Write} {c : Call}

theorem rest_of_createVoiceState {before rest : List Write}
    (hspl : createVoiceState channel user joinedAt = before ++ write :: rest) :
    (rest = [] ∧ write = .saddVc user channel) ∨ ∃ next rest', rest = next :: rest' ∧
        next ≠ .setPointer (uniqueKey channel user) channel.id := by
  cases rest with
  | nil =>
    have hls := congrArg List.getLast? hspl
    rw [List.getLast?_concat] at hls
    exact .inl ⟨rfl, (some.inj hls).symm⟩
  | cons next rest' =>
    refine .inr ⟨next, rest', rfl, tail_createVoiceState channel user joinedAt next ?_⟩
    rw [hspl]
    cases before <;> simp

theorem uniqueKey_of_written {k : Key} (hmem : write ∈ createVoiceState channel user joinedAt)
    (hwr : written write = some k) : k.uniqueKey = uniqueKey channel user := by
  simp only [createVoiceState, mem_cons, not_mem_nil, or_false] at hmem
  rcases hmem with rfl | rfl | rfl | rfl | rfl | rfl | rfl | rfl | rfl | rfl | rfl | rfl | rfl | rfl <;>
    cases hwr <;> rfl

theorem mem_vc_perform {s : Store} (hent : (user, channel) ∈ s.vc)
    (hc : c ≠ .deleteVoiceState channel user) : (user, channel) ∈ (perform pid c s).1.vc := by
  cases c with
  | write write =>
    cases write with
    | saddVc user' channel' => exact List.mem_insert_of_mem hent
    | _ => exact hent
  | deleteVoiceState channel' user' =>
    show _ ∈ (Store.tearDown _ channel' user').1.vc
    rw [Store.tearDown_vc]
    refine mem_filter.mpr ⟨hent, decide_eq_true ?_⟩
    rintro ⟨⟩
    exact hc rfl
  | getUserVoiceChannels user' => exact hent
  | del keys =>
    show _ ∈ (keys.foldl del s).vc
    rw [vc_foldl_del]
    exact hent

theorem concat_eq_cut {α : Type*} {history early late : List α} {last entry : α}
    (h : history ++ [last] = early ++ entry :: late) :
    (late = [] ∧ entry = last ∧ early = history) ∨
      ∃ late', late = late' ++ [last] ∧ history = early ++ entry :: late' := by
  obtain rfl | ⟨late', last', rfl⟩ := List.eq_nil_or_concat late
  · have hinj := List.append_inj' h rfl
    exact .inl ⟨rfl, (cons.inj hinj.2).1.symm, hinj.1.symm⟩
  · rw [List.concat_eq_append, ← cons_append, ← append_assoc] at h
    have hinj := List.append_inj' h rfl
    obtain rfl := (cons.inj hinj.2).1
    exact .inr ⟨late', List.concat_eq_append, hinj.1⟩

/-- What is so of a run: where joins are, and that a user who has not left since is live. -/
structure Kept (history : List (Sweeping × Event Request)) (sys : Sweeping) : Prop where
  pipelined : Pipelined sys
  live : ∀ early s₀ event₀ late, history = early ++ (s₀, event₀) :: late →
    ∀ channel user k, Writes s₀ event₀ channel user k → k.uniqueKey = uniqueKey channel user ∧
      ((∃ entry ∈ late, Leaves entry.1 entry.2 channel user) ∨ Live sys channel user)

variable {history : List (Sweeping × Event Request)} {sys : Sweeping}

theorem Kept.uncalled {processes : Table ℕ _} (hkp : Kept history sys)
    (hpip : Pipelined ⟨sys.store, processes⟩) (hcalls : sys.calls event = none)
    (hmn : ∀ pid process, sys.processes.get pid = some process → processes.get pid = some process) :
    Kept (history ++ [(sys, event)]) ⟨sys.store, processes⟩ := by
  refine ⟨hpip, fun early s0 event0 late hcut channel user k hws => ?_⟩
  rcases concat_eq_cut hcut with ⟨-, heq, -⟩ | ⟨late', rfl, hcut'⟩
  · cases heq
    obtain ⟨pid, joinedAt, write, rest, rfl, hg, -⟩ := hws
    rw [System.calls_step hg] at hcalls
    cases hcalls
  · obtain ⟨hkey, ⟨entry, hent, hleav⟩ | hlv⟩ :=
      hkp.live early s0 event0 late' hcut' channel user k hws
    · exact ⟨hkey, .inl ⟨entry, mem_append_left _ hent, hleav⟩⟩
    · refine ⟨hkey, .inr (hlv.imp_right ?_)⟩
      rintro ⟨pid, joinedAt, write, rest, hg, hnx⟩
      exact ⟨pid, joinedAt, write, rest, hmn pid _ hg, hnx⟩

variable {rest : Reply c → Program Unit}

theorem Pipelined.call (hpip : Pipelined sys)
    (hg : sys.processes.get pid = some ⟨request, some (.call c rest)⟩) :
    Pipelined ⟨(perform pid c sys.store).1, sys.processes.insert pid
      ⟨request, some (rest (perform pid c sys.store).2)⟩⟩ := by
  intro pid' channel user joinedAt prog hg'
  rcases get_insert_cases hg' with ⟨rfl, heq⟩ | hold
  · obtain ⟨rfl, hpr⟩ := Process.mk.inj heq
    cases hpr
    obtain ⟨done, left, hspl, hlf⟩ := hpip _ channel user joinedAt _ hg
    cases left with
    | nil => cases hlf
    | cons write left =>
      cases hlf
      exact ⟨done ++ [write], left, by rw [hspl, append_assoc]; rfl, rfl⟩
  · exact hpip pid' channel user joinedAt prog hold

theorem live_of_write {rest : Reply (.write write) → Program Unit} (hpip : Pipelined sys)
    (hg : sys.processes.get pid =
      some ⟨.join channel user joinedAt, some (.call (.write write) rest)⟩) :
    Live ⟨(perform pid (.write write) sys.store).1, sys.processes.insert pid
      ⟨.join channel user joinedAt, some (rest ())⟩⟩ channel user := by
  obtain ⟨done, left, hspl, hlf⟩ := hpip pid channel user joinedAt _ hg
  cases left with
  | nil => cases hlf
  | cons write' left =>
    cases hlf
    rcases rest_of_createVoiceState hspl with ⟨rfl, rfl⟩ | ⟨next, left', rfl, hnx⟩
    · exact .inl List.mem_insert_self
    · exact .inr ⟨pid, joinedAt, next, _, by rw [get_insert_self]; rfl, hnx⟩

theorem Live.call (hlv : Live sys channel user) (hpip : Pipelined sys)
    (hg : sys.processes.get pid = some ⟨request, some (.call c rest)⟩)
    (hc : c ≠ .deleteVoiceState channel user) :
    Live ⟨(perform pid c sys.store).1, sys.processes.insert pid
      ⟨request, some (rest (perform pid c sys.store).2)⟩⟩ channel user := by
  rcases hlv with hent | ⟨pid', joinedAt, write, rest', hg', hnx⟩
  · exact .inl (mem_vc_perform hent hc)
  · by_cases hpid : pid' = pid
    · subst hpid
      rw [hg'] at hg
      cases hg
      exact live_of_write hpip hg'
    · exact .inr ⟨pid', joinedAt, write, rest',
        by rw [get_insert, if_neg hpid]; exact hg', hnx⟩

theorem Kept.call (hkp : Kept history sys)
    (hg : sys.processes.get pid = some ⟨request, some (.call c rest)⟩) :
    Kept (history ++ [(sys, .step pid)]) ⟨(perform pid c sys.store).1, sys.processes.insert pid
      ⟨request, some (rest (perform pid c sys.store).2)⟩⟩ := by
  refine ⟨hkp.pipelined.call hg, fun early s0 event0 late hcut channel user k hws => ?_⟩
  rcases concat_eq_cut hcut with ⟨-, heq, -⟩ | ⟨late', rfl, hcut'⟩
  · cases heq
    obtain ⟨pid', joinedAt, write, rest', hev, hg', hwr⟩ := hws
    obtain rfl := Event.step.inj hev
    rw [hg'] at hg
    cases hg
    obtain ⟨done, left, hspl, hlf⟩ := hkp.pipelined _ channel user joinedAt _ hg'
    cases left with
    | nil => cases hlf
    | cons write' left =>
      cases hlf
      have hmem : write ∈ createVoiceState channel user joinedAt := by
        rw [hspl]
        exact mem_append_right _ mem_cons_self
      exact ⟨uniqueKey_of_written hmem hwr, .inr (live_of_write hkp.pipelined hg')⟩
  · obtain ⟨hkey, ⟨entry, hent, hleav⟩ | hlv⟩ :=
      hkp.live early s0 event0 late' hcut' channel user k hws
    · exact ⟨hkey, .inl ⟨entry, mem_append_left _ hent, hleav⟩⟩
    · by_cases hc : c = .deleteVoiceState channel user
      · subst hc
        exact ⟨hkey, .inl ⟨_, mem_append_right _ mem_cons_self, System.calls_step hg⟩⟩
      · exact ⟨hkey, .inr (hlv.call hkp.pipelined hg hc)⟩

theorem kept_of_run {s : Store} (hrun : Run exec Settled (idle s) history sys) :
    Kept history sys := by
  refine System.invariant_history (fun history sys event _ hcalls hkp => ?_)
    (fun history sys pid request _ _ hfr hkp => ?_)
    (fun history sys pid request c rest _ _ hg hkp => hkp.call hg)
    (fun history sys pid request c rest _ hsettled _ _ => hsettled.1.elim)
    hrun ⟨fun pid channel user joinedAt prog hg => ?_, fun early s0 event0 late hcut => ?_⟩
  · exact hkp.uncalled hkp.pipelined hcalls fun _ _ hg => hg
  · refine hkp.uncalled (fun pid' channel user joinedAt prog hg => ?_) rfl fun pid' process hg => ?_
    · rcases get_insert_cases hg with ⟨rfl, heq⟩ | hold
      · obtain ⟨rfl, hpr⟩ := Process.mk.inj heq
        exact ⟨[], _, rfl, some.inj hpr⟩
      · exact hkp.pipelined pid' channel user joinedAt prog hold
    · rw [get_insert, if_neg]
      · exact hg
      · rintro rfl
        rw [hfr] at hg
        cases hg
  · simp [idle] at hg
  · simp at hcut

/-- **The stray keys.** Among joins and leaves, where every delete is settled, the sweep takes no
key from a user who has not left. Alone it leaves no stray exactly when no stray has a key that it
does not know. -/
theorem sweep_removes_the_strays (s : Store) :
    (∀ history sys, Run exec Settled (idle s) history sys → KeepsJoins history) ∧
      ∀ scanned, Scans s scanned → (LeavesClaimed s (swept s scanned) ↔ OnlyKnown s) := by
  refine ⟨?_, fun scanned hscans => leavesClaimed_iff hscans⟩
  rintro history sys hrun before s' event after rfl keys hcalls k hk - early s₀ event₀ late rfl
    channel user hwrites
  obtain ⟨hbefore, hsettled, -⟩ := hrun.split_at
  obtain ⟨hkey, hleft | hlive⟩ :=
    (kept_of_run hbefore).live early s₀ event₀ late rfl channel user k hwrites
  · exact hleft
  · exact absurd hlive (not_live_of_settled hsettled hcalls hk hkey)

/-! ## A join and a sweep -/

def room : UserVoiceChannel := ⟨"room", none⟩

/-- Somebody's keys in the room. -/
def roomKey : UniqueKey := uniqueKey room "user"

/-- Somebody joins and leaves, then the sweep comes to the keys it has scanned before. -/
def joinedAndLeft : List (Event Request) :=
  [.start 0 (.join room "user" 0)] ++ List.replicate 14 (.step 0) ++
    [.start 1 (.leave room "user"), .step 1, .start 2 (.sweep [roomKey]), .step 2, .step 2]

/-- Keys left in the room by somebody without an entry. -/
def forgotten : Store :=
  { Store.empty with
    pointers := Table.insert ∅ roomKey room.id
    joinedAt := Table.insert ∅ roomKey 0
    flags := Table.insert ∅ (.camera, roomKey) true }

theorem scans_room {s : Store} (h : s.joinedAt = Table.insert ∅ roomKey 0) : Scans s [roomKey] := by
  intro key
  rw [h, get_insert, mem_singleton]
  by_cases hkey : key = roomKey <;> simp [hkey]

theorem sweep_removes_the_strays_after_a_leave :
    KeepsJoins (historyOf exec (idle Store.empty) joinedAndLeft) ∧
      LeavesClaimed forgotten (swept forgotten [roomKey]) := by
  have hrun : Run exec Settled (idle Store.empty) _
      (execAll exec (idle Store.empty) joinedAndLeft) := Run.of_admitsAll (by decide)
  have hscans : Scans forgotten [roomKey] := scans_room rfl
  refine ⟨(sweep_removes_the_strays _).1 _ _ hrun,
    ((sweep_removes_the_strays forgotten).2 _ hscans).mpr fun key hjoined _ => ?_⟩
  obtain rfl : key = roomKey := mem_singleton.mp ((hscans key).mpr hjoined)
  decide

/-- The sweep comes when the join has written two of its keys. -/
def sweptMidway : List (Event Request) :=
  [.start 0 (.join room "user" 0), .step 0, .step 0, .start 1 (.sweep [roomKey]), .step 1, .step 1]

def watchingStray : Store :=
  { Store.empty with
    joinedAt := Table.insert ∅ roomKey 0
    flags := Table.insert ∅ (.watching, roomKey) true }

theorem sweep_takes_a_join_and_leaves_a_stray : ¬ (∀ (s : Store) history sys,
        Run exec (fun _ event => NoCrash event) (idle s) history sys → KeepsJoins history) ∧
      ¬ ∀ s scanned, Scans s scanned → LeavesClaimed s (swept s scanned) := by
  constructor
  · intro hclaim
    have hrun : Run exec (fun _ event => NoCrash event) (idle Store.empty) _
        (execAll exec (idle Store.empty) sweptMidway) := Run.of_admitsAll (by decide)
    have hkeeps := hclaim _ _ _ hrun
    obtain ⟨entry, hentry, hleaves⟩ := hkeeps _ _ (.step 1) []
      (historyOf_concat exec _ (sweptMidway.take 5) (.step 1)) (strayKeys roomKey) (by rfl)
      (.pointer roomKey) (pointer_mem_strayKeys roomKey) (by rfl)
      [(idle Store.empty, .start 0 (.join room "user" 0))] _ (.step 0) _ (by rfl)
      room "user" ⟨0, 0, .setPointer roomKey room.id, _, rfl, by rfl, rfl⟩
    rcases hentry with _ | ⟨_, _ | ⟨_, _ | ⟨_, hnil⟩⟩⟩
    · cases hleaves
    · cases hleaves
    · cases hleaves
    · cases hnil
  · intro hclaim
    have hleaves := hclaim _ _ (scans_room (s := watchingStray) rfl) roomKey (by decide)
      ⟨.state (.flag .watching) roomKey, .inr ⟨_, by decide, rfl⟩, by decide⟩
    exact absurd hleaves (by decide)

end StraySweep
end SlogaBackend.Voice
