import SlogaBackend.Lib.IndexMap
import SlogaBackend.Lib.Table
import SlogaBackend.Lib.Runs

/-!
# The coalescion service

`CoalescionService::execute` runs the function a caller brings, unless one of the same id is
running or queued; then the caller waits for that one's value. Two maps are shared by the
callers, each behind a lock of its own: `watchers` has the channel of a running function, `queue`
that of a caller which waits for a place among the `max_concurrent` ones.

A step here is what a caller does between two of its await points: a section under one of the
locks, the end of its own function, or the end of its wait for a channel. So whatever a caller has
read under one lock may be out of date when it takes the next one.

A caller's future may be dropped where it waits. What it has put into the maps stays there, and
the channels it would have sent to are closed.

The feature `queue` is on, as gifbox has it; without it a service is one with
`queueRequests = false`. The feature `cache` is off.
-/

namespace SlogaBackend.Coalesced

structure CoalescionServiceConfig where
  /-- How many tasks are running at once. -/
  maxConcurrent : Option Nat
  /-- Whether to queue tasks once `maxConcurrent` is reached. -/
  queueRequests : Bool
  /-- Max amount of tasks in the buffer queue. -/
  maxQueue : Option Nat

/-- `CoalescionServiceConfig::default`. -/
def CoalescionServiceConfig.default : CoalescionServiceConfig where
  maxConcurrent := some 100
  queueRequests := true
  maxQueue := some 100

/-- As many functions are running as may. -/
def CoalescionServiceConfig.full (config : CoalescionServiceConfig) (length : Nat) : Bool :=
  config.maxConcurrent.any fun maxConcurrent => maxConcurrent ≤ length

inductive Error where
  | recvError
  | maxConcurrent
  | maxQueue
  | downcastError

variable {Id T V : Type}

/-- `Arc<dyn Any>`: a value with the type it was made at. -/
structure Any (T V : Type) where
  typeId : T
  value : V

/-- `Arc::downcast`. -/
def Any.downcast [DecidableEq T] (any : Any T V) (typeId : T) : Except Error V :=
  if any.typeId = typeId then .ok any.value else .error .downcastError

/-- A watch channel, by the caller that holds its sending end: the one `insert_and_execute` makes
and the one the queue branch makes. -/
inductive Channel where
  | run (caller : Nat)
  | queued (caller : Nat)
  deriving DecidableEq

/-- The await point a caller is at, and what it does next. `queued` says whether it has come
through the queue. -/
inductive Phase (V : Type) where
  /-- Read `watchers`. -/
  | start
  /-- `wait_for` a channel. -/
  | waiting (receiver : Channel)
  /-- Read `queue`. -/
  | readQueue
  /-- Enter `queue`. -/
  | enqueue
  /-- Read the length of `watchers`, in the loop. -/
  | spin
  /-- Read the first key of `queue`. -/
  | head
  /-- Leave `queue`. -/
  | dequeue
  /-- Enter `watchers`. -/
  | insert (queued : Bool)
  /-- Its function is running. -/
  | running (queued : Bool)
  /-- The value is sent; leave `watchers`. -/
  | finishing (queued : Bool) (value : V)
  | returned (result : Except Error V)
  | dropped

/-- A call of `execute`: its id, the type its function's value has, and what it has sent to its two
channels. -/
structure Caller (Id T V : Type) where
  id : Id
  typeId : T
  phase : Phase V
  sentRun : Option (Any T V)
  sentQueued : Option (Any T V)

/-- The service and the callers so far. -/
structure State (Id T V : Type) where
  watchers : Table Id Channel
  queue : IndexMap Id Channel
  callers : Table Nat (Caller Id T V)

/-- What happens next: a caller comes, takes its next step, its function returns a value, or its
future is dropped. -/
inductive Action (Id T V : Type) where
  | call (caller : Nat) (id : Id) (typeId : T)
  | step (caller : Nat)
  | finish (caller : Nat) (value : V)
  | drop (caller : Nat)

namespace State

/-- A service that was just made. -/
def empty : State Id T V := ⟨∅, [], ∅⟩

/-- The caller is `caller` from here on. -/
def put (s : State Id T V) (n : Nat) (caller : Caller Id T V) : State Id T V :=
  { s with callers := s.callers.insert n caller }

theorem get_put_self (s : State Id T V) (n : Nat) (caller : Caller Id T V) :
    (s.put n caller).callers.get n = some caller :=
  get_insert_self

theorem get_put_cases {s : State Id T V} {n m : Nat} {caller other : Caller Id T V}
    (h : (s.put n caller).callers.get m = some other) :
    m = n ∧ other = caller ∨ m ≠ n ∧ s.callers.get m = some other := by
  rw [put, get_insert] at h
  split_ifs at h with hm
  · exact .inl ⟨hm, (some.inj h).symm⟩
  · exact .inr ⟨hm, h⟩

def currentTaskCount (s : State Id T V) : Nat := s.watchers.keys.length

def currentQueueLen (s : State Id T V) : Nat := s.queue.length

end State

/-- The caller, at another await point. -/
def Caller.at (caller : Caller Id T V) (phase : Phase V) : Caller Id T V :=
  { caller with phase := phase }

/-- Nothing is sent to the channels of a caller that has returned or was dropped. -/
def Phase.ended : Phase V → Bool
  | .returned _ => true
  | .dropped => true
  | _ => false

section Receiving

/-- What `wait_for` finds in a channel: the value sent, an error once the sender is gone without
having sent one, and nothing as long as it may still come. -/
def Caller.received (caller : Caller Id T V) (sent : Option (Any T V)) :
    Option (Except Error (Any T V)) :=
  match sent with
  | some any => some (.ok any)
  | none => if caller.phase.ended then some (.error .recvError) else none

def State.received (s : State Id T V) : Channel → Option (Except Error (Any T V))
  | .run n => (s.callers.get n).bind fun caller => caller.received caller.sentRun
  | .queued n => (s.callers.get n).bind fun caller => caller.received caller.sentQueued

end Receiving

section Steps

variable [DecidableEq Id] [DecidableEq T] (config : CoalescionServiceConfig)

/-- The sections of `execute`, `insert_and_execute` and `wait_for` between two await points. -/
def advance (s : State Id T V) (n : Nat) (caller : Caller Id T V) : State Id T V :=
  match caller.phase with
  | .start =>
    match s.watchers.get caller.id with
    | some receiver => s.put n (caller.at (.waiting receiver))
    | none =>
      if config.full s.currentTaskCount then
        if config.queueRequests then s.put n (caller.at .readQueue)
        else s.put n (caller.at (.returned (.error .maxConcurrent)))
      else s.put n (caller.at (.insert false))
  | .waiting receiver =>
    match s.received receiver with
    | some (.ok any) => s.put n (caller.at (.returned (any.downcast caller.typeId)))
    | some (.error error) => s.put n (caller.at (.returned (.error error)))
    | none => s
  | .readQueue =>
    match s.queue.get caller.id with
    | some receiver => s.put n (caller.at (.waiting receiver))
    | none =>
      if config.maxQueue.any fun maxQueue => s.queue.length ≤ maxQueue then
        s.put n (caller.at (.returned (.error .maxQueue)))
      else s.put n (caller.at .enqueue)
  | .enqueue => { s with queue := s.queue.insert caller.id (.queued n) }.put n (caller.at .spin)
  | .spin => if config.full s.currentTaskCount then s else s.put n (caller.at .head)
  | .head =>
    if s.queue.firstKey = some caller.id then s.put n (caller.at .dequeue)
    else s.put n (caller.at .spin)
  | .dequeue => { s with queue := s.queue.shiftRemove caller.id }.put n (caller.at (.insert true))
  | .insert queued =>
    { s with watchers := s.watchers.insert caller.id (.run n) }.put n (caller.at (.running queued))
  | .running _ => s
  | .finishing queued value =>
    { s with watchers := s.watchers.erase caller.id }.put n
      { caller with
        phase := .returned (.ok value)
        sentQueued := if queued then some ⟨caller.typeId, value⟩ else none }
  | .returned _ => s
  | .dropped => s

/-- The value goes out on the channel where the function ends. -/
def finish (s : State Id T V) (n : Nat) (caller : Caller Id T V) (value : V) : State Id T V :=
  match caller.phase with
  | .running queued =>
    s.put n { caller with
      phase := .finishing queued value, sentRun := some ⟨caller.typeId, value⟩ }
  | _ => s

def drop (s : State Id T V) (n : Nat) (caller : Caller Id T V) : State Id T V :=
  if caller.phase.ended then s else s.put n (caller.at .dropped)

/-- One action. A number is used by one caller. -/
def exec (s : State Id T V) : Action Id T V → State Id T V × Unit
  | .call n id typeId =>
    match s.callers.get n with
    | some _ => (s, ())
    | none => (s.put n ⟨id, typeId, .start, none, none⟩, ())
  | .step n => (((s.callers.get n).map (advance config s n)).getD s, ())
  | .finish n value => (((s.callers.get n).map fun caller => finish s n caller value).getD s, ())
  | .drop n => (((s.callers.get n).map (drop s n)).getD s, ())

end Steps

/-! ## What a caller is doing -/

/-- Its run is in progress: its function has been started, and its entry of `watchers` is still to
be taken out. -/
def Phase.inProgress : Phase V → Bool
  | .running _ => true
  | .finishing _ _ => true
  | _ => false

def Phase.isRunning : Phase V → Bool
  | .running _ => true
  | _ => false

/-- It waits in the queue for its turn. -/
def Phase.inQueue : Phase V → Bool
  | .spin => true
  | .head => true
  | .dequeue => true
  | _ => false

variable {phase : Phase V}

theorem Phase.inProgress_of_isRunning (h : phase.isRunning = true) : phase.inProgress = true := by
  cases phase with
  | running queued => rfl
  | _ => cases h

theorem Phase.not_inQueue_of_inProgress (h : phase.inProgress = true) : ¬ phase.inQueue = true := by
  cases phase with
  | running queued | finishing queued value => exact nofun
  | _ => cases h

theorem Phase.not_ended_of_inProgress (h : phase.inProgress = true) : phase.ended = false := by
  cases phase with
  | running queued => rfl
  | finishing queued value => rfl
  | _ => cases h

theorem Phase.not_ended_of_inQueue (h : phase.inQueue = true) : phase.ended = false := by
  cases phase with
  | spin | head | dequeue => rfl
  | _ => cases h

/-- Every caller has returned or was dropped. -/
def State.AllEnded (s : State Id T V) : Prop :=
  ∀ n caller, s.callers.get n = some caller → caller.phase.ended = true

def State.endedAll (s : State Id T V) : Bool :=
  s.callers.values.all fun caller => caller.phase.ended

theorem State.allEnded_of_all {s : State Id T V} (h : s.endedAll = true) : s.AllEnded :=
  fun _ _ hg => all_eq_true.mp h _ (mem_values_of_get hg)

theorem State.currentTaskCount_eq_zero [DecidableEq Id] {s : State Id T V}
    (h : ∀ id, s.watchers.get id = none) : s.currentTaskCount = 0 :=
  List.length_eq_zero_iff.mpr (List.eq_nil_iff_forall_not_mem.mpr fun id =>
    AList.lookup_eq_none.mp (h id))

/-! ## What an action does -/

section Inversion

variable [DecidableEq Id] [DecidableEq T] (config : CoalescionServiceConfig)

/-- What an action that changes something does. -/
inductive Step (s : State Id T V) : Action Id T V → State Id T V → Prop where
  | called (n : Nat) (id : Id) (typeId : T) : s.callers.get n = none →
      Step s (.call n id typeId) (s.put n ⟨id, typeId, .start, none, none⟩)
  /-- It found the channel of another caller of its id. -/
  | waits (n : Nat) (caller : Caller Id T V) (receiver : Channel) : s.callers.get n = some caller →
      (caller.phase = .start ∧ s.watchers.get caller.id = some receiver ∨
        caller.phase = .readQueue ∧ s.queue.get caller.id = some receiver) →
      Step s (.step n) (s.put n (caller.at (.waiting receiver)))
  | refused (n : Nat) (caller : Caller Id T V) (error : Error) : s.callers.get n = some caller →
      (caller.phase = .start ∧ error = .maxConcurrent ∨
        caller.phase = .readQueue ∧ error = .maxQueue) →
      Step s (.step n) (s.put n (caller.at (.returned (.error error))))
  /-- It found no channel, and goes on to the next lock. -/
  | passes (n : Nat) (caller : Caller Id T V) (phase : Phase V) : s.callers.get n = some caller →
      (caller.phase = .start ∧ (phase = .readQueue ∨ phase = .insert false) ∨
        caller.phase = .readQueue ∧ phase = .enqueue) →
      Step s (.step n) (s.put n (caller.at phase))
  | receives (n : Nat) (caller : Caller Id T V) (receiver : Channel)
      (content : Except Error (Any T V)) : s.callers.get n = some caller →
      caller.phase = .waiting receiver → s.received receiver = some content →
      Step s (.step n)
        (s.put n (caller.at (.returned (content.bind fun any => any.downcast caller.typeId))))
  | enqueues (n : Nat) (caller : Caller Id T V) : s.callers.get n = some caller →
      caller.phase = .enqueue →
      Step s (.step n)
        ({ s with queue := s.queue.insert caller.id (.queued n) }.put n (caller.at .spin))
  /-- It goes around the loop of the queue. -/
  | turns (n : Nat) (caller : Caller Id T V) (phase : Phase V) : s.callers.get n = some caller →
      caller.phase.inQueue = true → phase.inQueue = true →
      Step s (.step n) (s.put n (caller.at phase))
  | dequeues (n : Nat) (caller : Caller Id T V) : s.callers.get n = some caller →
      caller.phase = .dequeue →
      Step s (.step n)
        ({ s with queue := s.queue.shiftRemove caller.id }.put n (caller.at (.insert true)))
  | inserts (n : Nat) (caller : Caller Id T V) (queued : Bool) : s.callers.get n = some caller →
      caller.phase = .insert queued →
      Step s (.step n) ({ s with watchers := s.watchers.insert caller.id (.run n) }.put n
          (caller.at (.running queued)))
  | finishes (n : Nat) (caller : Caller Id T V) (queued : Bool) (value : V) :
      s.callers.get n = some caller → caller.phase = .running queued →
      Step s (.finish n value) (s.put n { caller with
        phase := .finishing queued value, sentRun := some ⟨caller.typeId, value⟩ })
  | removes (n : Nat) (caller : Caller Id T V) (queued : Bool) (value : V) :
      s.callers.get n = some caller → caller.phase = .finishing queued value →
      Step s (.step n) ({ s with watchers := s.watchers.erase caller.id }.put n
        { caller with
          phase := .returned (.ok value)
          sentQueued := if queued then some ⟨caller.typeId, value⟩ else none })
  | dropped (n : Nat) (caller : Caller Id T V) : s.callers.get n = some caller →
      caller.phase.ended = false → Step s (.drop n) (s.put n (caller.at .dropped))

variable {s : State Id T V} {n : Nat} {caller : Caller Id T V}

theorem advance_step (hg : s.callers.get n = some caller) :
    advance config s n caller = s ∨ Step s (.step n) (advance config s n caller) := by
  unfold advance
  split
  · rename_i hph
    split
    · exact .inr (.waits n caller _ hg (.inl ⟨hph, ‹_›⟩))
    · split_ifs
      · exact .inr (.passes n caller _ hg (.inl ⟨hph, .inl rfl⟩))
      · exact .inr (.refused n caller _ hg (.inl ⟨hph, rfl⟩))
      · exact .inr (.passes n caller _ hg (.inl ⟨hph, .inr rfl⟩))
  · rename_i receiver hph
    split
    · rename_i any hcon
      exact .inr (.receives n caller receiver (.ok any) hg hph hcon)
    · rename_i error hcon
      exact .inr (.receives n caller receiver (.error error) hg hph hcon)
    · exact .inl rfl
  · rename_i hph
    split
    · exact .inr (.waits n caller _ hg (.inr ⟨hph, ‹_›⟩))
    · split_ifs
      · exact .inr (.refused n caller _ hg (.inr ⟨hph, rfl⟩))
      · exact .inr (.passes n caller _ hg (.inr ⟨hph, rfl⟩))
  · exact .inr (.enqueues n caller hg ‹_›)
  · rename_i hph
    split_ifs
    · exact .inl rfl
    · exact .inr (.turns n caller _ hg (by rw [hph]; rfl) rfl)
  · rename_i hph
    split_ifs
    · exact .inr (.turns n caller _ hg (by rw [hph]; rfl) rfl)
    · exact .inr (.turns n caller _ hg (by rw [hph]; rfl) rfl)
  · exact .inr (.dequeues n caller hg ‹_›)
  · exact .inr (.inserts n caller _ hg ‹_›)
  · exact .inl rfl
  · exact .inr (.removes n caller _ _ hg ‹_›)
  · exact .inl rfl
  · exact .inl rfl

theorem advance_start (hph : caller.phase = .start) (hwat : s.watchers.get caller.id = none)
    (hrm : config.full s.currentTaskCount = false) :
    advance config s n caller = s.put n (caller.at (.insert false)) := by
  simp only [advance, hph, hwat, hrm, Bool.false_eq_true, if_false]

theorem advance_insert {queued : Bool} (hph : caller.phase = .insert queued) :
    advance config s n caller = { s with watchers := s.watchers.insert caller.id (.run n) }.put n
      (caller.at (.running queued)) := by
  simp only [advance, hph]

omit [DecidableEq Id] [DecidableEq T] in
theorem finish_running {queued : Bool} (hph : caller.phase = .running queued) (value : V) :
    finish s n caller value = s.put n { caller with
      phase := .finishing queued value, sentRun := some ⟨caller.typeId, value⟩ } := by
  simp only [finish, hph]

theorem exec_step_eq (hg : s.callers.get n = some caller) :
    (exec config s (.step n)).1 = advance config s n caller := by
  simp only [exec, hg, map_some, getD_some]

theorem exec_finish_eq (hg : s.callers.get n = some caller) (value : V) :
    (exec config s (.finish n value)).1 = finish s n caller value := by
  simp only [exec, hg, map_some, getD_some]

/-- **What one action does**: nothing, or one of the `Step`s. -/
theorem exec_step (s : State Id T V) (action : Action Id T V) :
    (exec config s action).1 = s ∨ Step s action (exec config s action).1 := by
  cases action with
  | call n id typeId =>
    simp only [exec]
    split
    · exact .inl rfl
    · exact .inr (.called n id typeId ‹_›)
  | step n =>
    cases hg : s.callers.get n with
    | none => exact .inl (by simp only [exec, hg, map_none, Option.getD_none])
    | some caller =>
      rw [exec_step_eq config hg]
      exact advance_step config hg
  | finish n value =>
    cases hg : s.callers.get n with
    | none => exact .inl (by simp only [exec, hg, map_none, Option.getD_none])
    | some caller =>
      rw [exec_finish_eq config hg]
      unfold finish
      split
      · exact .inr (.finishes n caller _ value hg ‹_›)
      · exact .inl rfl
  | drop n =>
    cases hg : s.callers.get n with
    | none => exact .inl (by simp only [exec, hg, map_none, Option.getD_none])
    | some caller =>
      simp only [exec, hg, map_some, getD_some]
      unfold drop
      split_ifs with hend
      · exact .inl rfl
      · exact .inr (.dropped n caller hg (eq_false_iff.mpr hend))

end Inversion

end SlogaBackend.Coalesced
