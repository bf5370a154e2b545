import SlogaBackend.Coalesced.Service

/-!
# Admission to the queue

While as many functions run as may, `execute` puts its caller into the queue, which has room for
`max_queue` of them. It refuses a caller while the queue is no longer than that, so that nothing
ever enters the queue: `queue_law_iff`.
-/

namespace SlogaBackend.Coalesced

variable {Id T V : Type}

def Action.serves : Action Id T V → Prop
  | .step _ => True
  | .finish _ _ => True
  | _ => False

/-- It takes its place in `watchers` next. -/
def Phase.enters : Phase V → Bool
  | .insert _ => true
  | _ => false

/-- The calls that start their function in a history, in this order. -/
def starts (calls : List (Nat × Id × T)) (history : List (State Id T V × Action Id T V)) :
    List Nat :=
  history.filterMap fun (s, action) =>
    match action with
    | .step n =>
      if n ∈ calls.map Prod.fst ∧ (s.callers.get n).any (·.phase.enters) then some n else none
    | _ => none

variable [DecidableEq Id] [DecidableEq T] (config : CoalescionServiceConfig)

/-- A call comes and takes its steps as far as the wait loop. -/
def issue (s : State Id T V) (call : Nat × Id × T) : State Id T V :=
  execAll (exec config) s
    [.call call.1 call.2.1 call.2.2, .step call.1, .step call.1, .step call.1]

def issueAll (s : State Id T V) (calls : List (Nat × Id × T)) : State Id T V :=
  calls.foldl (issue config) s

/-- As many other tasks are running as may, nothing is queued, and the calls are new. -/
structure Busy (c : Nat) (calls : List (Nat × Id × T)) (s : State Id T V) : Prop where
  full : c ≤ s.currentTaskCount
  others : ∀ n caller, s.callers.get n = some caller →
    caller.phase.isRunning = true ∨ caller.phase.ended = true
  queue : s.queue = []
  fresh : ∀ call ∈ calls, s.callers.get call.1 = none ∧ s.watchers.get call.2.1 = none
  numbers : (calls.map Prod.fst).Nodup
  ids : (calls.map (·.2.1)).Nodup

/-- The first `m` calls are queued and the others refused, and the queued ones are served in the
order of the queue, each once. -/
structure QueueLaw (m : Nat) (calls : List (Nat × Id × T)) (s : State Id T V) : Prop where
  queue : ∀ k, (issueAll config s (calls.take k)).queue =
    ((calls.take k).take m).map fun call => (call.2.1, .queued call.1)
  refused : ∀ call ∈ calls.drop m, ((issueAll config s calls).callers.get call.1).map Caller.phase =
    some (.returned (.error .maxQueue))
  served : ∀ history s',
    Run (exec config) (fun _ action => action.serves) (issueAll config s calls) history s' →
      starts (calls.take m) history <+: (calls.take m).map Prod.fst ∧
      ((∀ call ∈ calls.take m, (s'.callers.get call.1).any (·.phase.ended)) →
        starts (calls.take m) history = (calls.take m).map Prod.fst)

variable {config} {c m : Nat} {calls : List (Nat × Id × T)} {s : State Id T V}

section Refusing

variable (hc : config.maxConcurrent = some c) (hq : config.queueRequests = true)
  (hm : config.maxQueue = some m)
include hc hq hm

theorem issue_eq {call : Nat × Id × T} (hb : Busy c (call :: calls) s) : issue config s call =
    s.put call.1 ⟨call.2.1, call.2.2, .returned (.error .maxQueue), none, none⟩ := by
  obtain ⟨hn, hid⟩ := hb.fresh call mem_cons_self
  have hput : ∀ caller caller' : Caller Id T V, (s.put call.1 caller).put call.1 caller' =
      s.put call.1 caller' := fun caller caller' =>
    congrArg (State.mk s.watchers s.queue) (AList.insert_insert s.callers)
  have hfull : ∀ caller : Caller Id T V,
      config.full (s.put call.1 caller).currentTaskCount = true := fun _ => by
    simp only [CoalescionServiceConfig.full, hc, any_some]
    exact decide_eq_true hb.full
  have hcall : (exec config s (.call call.1 call.2.1 call.2.2)).1 =
      s.put call.1 ⟨call.2.1, call.2.2, .start, none, none⟩ := by
    simp only [exec, hn]
  have hstart : advance config (s.put call.1 ⟨call.2.1, call.2.2, .start, none, none⟩) call.1
      ⟨call.2.1, call.2.2, .start, none, none⟩ =
        s.put call.1 ⟨call.2.1, call.2.2, .readQueue, none, none⟩ := by
    simp only [advance, hfull, hq, if_true]
    rw [hput]
    simp [State.put, hid, Caller.at]
  have hread : advance config (s.put call.1 ⟨call.2.1, call.2.2, .readQueue, none, none⟩) call.1
      ⟨call.2.1, call.2.2, .readQueue, none, none⟩ =
        s.put call.1 ⟨call.2.1, call.2.2, .returned (.error .maxQueue), none, none⟩ := by
    simp only [advance]
    rw [hput, hput]
    simp [State.put, hb.queue, hm, Caller.at]
  unfold issue
  simp only [execAll, hcall, exec_step_eq config (State.get_put_self ..), hstart, hread]
  rfl

theorem Busy.issue {call : Nat × Id × T} (hb : Busy c (call :: calls) s) :
    Busy c calls (issue config s call) := by
  obtain ⟨hnum, hnums⟩ := nodup_cons.mp hb.numbers
  rw [issue_eq hc hq hm hb]
  refine ⟨hb.full, fun n caller hg => ?_, hb.queue, fun other hoth => ?_, hnums,
    (nodup_cons.mp hb.ids).2⟩
  · rcases State.get_put_cases hg with ⟨-, rfl⟩ | ⟨-, hg⟩
    · exact .inr rfl
    · exact hb.others n caller hg
  · obtain ⟨hn, hid⟩ := hb.fresh other (mem_cons_of_mem _ hoth)
    have hne : other.1 ≠ call.1 := fun heq => hnum (heq ▸ mem_map_of_mem hoth)
    exact ⟨by rw [State.put, get_insert, if_neg hne, hn], hid⟩

theorem issueAll_spec (hb : Busy c calls s) : (issueAll config s calls).queue = [] ∧
    (∀ call ∈ calls, (issueAll config s calls).callers.get call.1 =
      some ⟨call.2.1, call.2.2, .returned (.error .maxQueue), none, none⟩) ∧
    ∀ n ∉ calls.map Prod.fst, (issueAll config s calls).callers.get n = s.callers.get n := by
  induction calls generalizing s with
  | nil => exact ⟨hb.queue, by simp, fun _ _ => rfl⟩
  | cons call calls ih =>
    obtain ⟨hqueue, hrefused, hrest⟩ := ih (hb.issue hc hq hm)
    refine ⟨hqueue, fun other hoth => ?_, fun n hn => ?_⟩
    · rcases mem_cons.mp hoth with rfl | hoth
      · rw [issueAll, foldl_cons]
        refine (hrest _ (nodup_cons.mp hb.numbers).1).trans ?_
        rw [issue_eq hc hq hm hb]
        exact State.get_put_self ..
      · exact hrefused other hoth
    · rw [map_cons, mem_cons, not_or] at hn
      refine (hrest n hn.2).trans ?_
      rw [issue_eq hc hq hm hb, State.put, get_insert, if_neg hn.1]

end Refusing

/-- **The law of the queue holds only where nothing is to be queued.** -/
theorem queue_law_iff (hc : config.maxConcurrent = some c) (hq : config.queueRequests = true)
    (hm : config.maxQueue = some m) (hb : Busy c calls s) :
    QueueLaw config m calls s ↔ m = 0 ∨ calls = [] := by
  constructor
  · intro hlaw
    cases calls with
    | nil => exact .inr rfl
    | cons call calls =>
      have hqueue := hlaw.queue 1
      simp only [List.take_succ_cons, List.take_zero, issueAll, foldl_cons, List.foldl_nil,
        issue_eq hc hq hm hb, State.put, hb.queue] at hqueue
      cases m with
      | zero => exact .inl rfl
      | succ m => cases hqueue
  · intro hnone
    have hnil : calls.take m = [] := by rcases hnone with rfl | rfl <;> simp
    obtain ⟨-, hrefused, -⟩ := issueAll_spec hc hq hm hb
    refine ⟨fun k => ?_, fun call hcall => ?_, fun history s' hrun => ?_⟩
    · have hbk : Busy c (calls.take k) s :=
        ⟨hb.full, hb.others, hb.queue, fun call hcall => hb.fresh call (List.mem_of_mem_take hcall),
          hb.numbers.sublist ((List.take_sublist _ _).map _),
          hb.ids.sublist ((List.take_sublist _ _).map _)⟩
      rw [(issueAll_spec hc hq hm hbk).1, List.take_take, Nat.min_comm, ← List.take_take, hnil]
      simp
    · rw [hrefused call (List.mem_of_mem_drop hcall)]
      rfl
    · have hstarts : starts (calls.take m) history = [] := by
        refine List.filterMap_eq_nil_iff.mpr fun entry _ => ?_
        obtain ⟨s, action⟩ := entry
        cases action <;> simp [hnil]
      rw [hstarts, hnil]
      exact ⟨List.nil_prefix, fun _ => rfl⟩

namespace Sample

/-- One task at a time, and a queue of length `m`. -/
def single (m : Nat) : CoalescionServiceConfig := ⟨some 1, true, some m⟩

/-- The function of id 0 is running. -/
def working : State Nat Nat Nat := execAll (exec (single 0)) .empty [.call 0 0 0, .step 0, .step 0]

theorem busy_working : Busy 1 [(1, 1, 0), (2, 2, 0), (3, 3, 0)] working := by
  refine ⟨by decide, fun n caller hg => .inl ?_, rfl, by decide, by decide, by decide⟩
  have hall : ∀ entry ∈ working.callers.entries, entry.2.phase.isRunning = true := by decide
  exact hall _ (get_eq_some_iff.mp hg)

end Sample

/-- A service without room in its queue refuses the requests. -/
theorem queue_law_iff_no_room :
    QueueLaw (Sample.single 0) 0 [(1, 1, 0), (2, 2, 0), (3, 3, 0)] Sample.working :=
  (queue_law_iff rfl rfl rfl Sample.busy_working).mpr (.inl rfl)

/-- The first request that finds the service at work is refused, though the queue is empty. -/
theorem empty_queue_refuses : ¬∀ (config : CoalescionServiceConfig) (c m : Nat)
    (calls : List (Nat × Nat × Nat)) (s : State Nat Nat Nat), config.maxConcurrent = some c →
    config.queueRequests = true → config.maxQueue = some m → Busy c calls s →
    QueueLaw config m calls s := by
  intro h
  have hlaw := h (Sample.single 1) 1 1 _ _ rfl rfl rfl Sample.busy_working
  exact absurd (hlaw.queue 1) (by decide)

end SlogaBackend.Coalesced
