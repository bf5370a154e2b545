import SlogaBackend.Coalesced.Entries

/-!
# One run of an id at a time

A caller reads `watchers` under the read lock and enters it under the write lock, and between the
two any number of others may enter. If what it read still holds when it enters, its id is free
and there is a place. `Serial` says that of every step that enters, and then `watchers` is exact:
a run in progress has an entry of its own.

What a caller is answered that waits for the channel of another needs no such condition. An entry
of `watchers` is taken out where its own run ends at the latest, so a channel that is found there
belongs to a run in progress; and one found in `queue` belongs to a run still to come.
-/

namespace SlogaBackend.Coalesced

variable {Id T V : Type}

/-! ## Exact entries -/

section Exact

variable [DecidableEq Id]

/-- Each run in progress has an entry of its own, and there are no more entries than functions may
run. -/
structure State.Exact (config : CoalescionServiceConfig) (s : State Id T V) : Prop where
  own : ∀ n caller, s.callers.get n = some caller → caller.phase.inProgress = true →
    s.watchers.get caller.id = some (.run n)
  fits : ∀ maxConcurrent, config.maxConcurrent = some maxConcurrent →
    s.currentTaskCount ≤ maxConcurrent

/-- It enters `watchers` next. -/
def Phase.isInsert : Phase V → Bool
  | .insert _ => true
  | _ => false

/-- Nobody is dropped, and who enters `watchers` finds its id free and a place left, as it did when
it read them. -/
def Serial (config : CoalescionServiceConfig) (s : State Id T V) : Action Id T V → Prop
  | .drop _ => False
  | .step n => ∀ caller ∈ s.callers.get n, caller.phase.isInsert = true →
      s.watchers.get caller.id = none ∧ config.full s.currentTaskCount = false
  | _ => True

instance (config : CoalescionServiceConfig) (s : State Id T V) :
    ∀ action, Decidable (Serial config s action)
  | .drop _ => inferInstanceAs (Decidable False)
  | .step _ => inferInstanceAs (Decidable (∀ caller ∈ _, _))
  | .call _ _ _ => isTrue trivial
  | .finish _ _ => isTrue trivial

variable {config : CoalescionServiceConfig} {s : State Id T V}

theorem lt_of_not_full {length maxConcurrent : Nat}
    (hmax : config.maxConcurrent = some maxConcurrent) (hrm : config.full length = false) :
    length < maxConcurrent := by
  unfold CoalescionServiceConfig.full at hrm
  rw [hmax] at hrm
  exact Nat.lt_of_not_le (of_decide_eq_false hrm)

theorem State.Exact.withQueue (hexact : s.Exact config) (queue : IndexMap Id Channel) :
    ({ s with queue := queue } : State Id T V).Exact config :=
  ⟨hexact.own, hexact.fits⟩

section

variable (hexact : s.Exact config) {n : Nat} {caller caller' : Caller Id T V}
include hexact

theorem State.Exact.put (hg : s.callers.get n = some caller) (hid : caller'.id = caller.id)
    (hph : caller'.phase.inProgress = true → caller.phase.inProgress = true) :
    (s.put n caller').Exact config where
  own m other hoth hprog := by
    rcases State.get_put_cases hoth with ⟨rfl, rfl⟩ | ⟨-, hold⟩
    · rw [hid]
      exact hexact.own m caller hg (hph hprog)
    · exact hexact.own m other hold hprog
  fits := hexact.fits

theorem State.Exact.begin (hid : caller'.id = caller.id) (hfre : s.watchers.get caller.id = none)
    (hrm : config.full s.currentTaskCount = false) :
    ({ s with watchers := s.watchers.insert caller.id (.run n) }.put n caller').Exact config where
  own m other hoth hprog := by
    rcases State.get_put_cases hoth with ⟨rfl, rfl⟩ | ⟨-, hold⟩
    · exact (get_insert ..).trans (if_pos hid)
    · have hown := hexact.own m other hold hprog
      have hne : other.id ≠ caller.id := by
        intro heq
        rw [heq, hfre] at hown
        cases hown
      exact ((get_insert ..).trans (if_neg hne)).trans hown
  fits maxConcurrent hmax := by
    have hky : caller.id ∉ s.watchers := AList.lookup_eq_none.mp hfre
    have hlen : (s.watchers.insert caller.id (.run n)).keys.length = s.currentTaskCount + 1 := by
      rw [Table.insert, AList.keys_insert, length_cons, List.erase_of_not_mem hky]
      rfl
    exact hlen.trans_le (lt_of_not_full hmax hrm)

theorem State.Exact.remove
    (hg : s.callers.get n = some caller) (hprog : caller.phase.inProgress = true)
    (hend : caller'.phase.inProgress = false) :
    ({ s with watchers := s.watchers.erase caller.id }.put n caller').Exact config where
  own m other hoth hoth' := by
    rcases State.get_put_cases hoth with ⟨rfl, rfl⟩ | ⟨hm, hold⟩
    · rw [hend] at hoth'
      cases hoth'
    · have hown := hexact.own m other hold hoth'
      have hne : other.id ≠ caller.id := by
        intro heq
        rw [heq, hexact.own n caller hg hprog] at hown
        exact hm (Channel.run.inj (some.inj hown)).symm
      exact ((get_erase ..).trans (if_neg hne)).trans hown
  fits maxConcurrent hmax := by
    refine le_trans ?_ (hexact.fits maxConcurrent hmax)
    show (s.watchers.erase caller.id).keys.length ≤ _
    rw [Table.erase, AList.keys_erase]
    exact List.erase_sublist.length_le

end

/-- The callers whose function is running. -/
def State.running (s : State Id T V) : Finset Nat :=
  s.callers.support fun caller => caller.phase.isRunning

theorem State.Exact.unique (hexact : s.Exact config) {n n' : Nat} {caller caller' : Caller Id T V}
    (hg : s.callers.get n = some caller) (hg' : s.callers.get n' = some caller')
    (hid : caller.id = caller'.id) (hprog : caller.phase.inProgress = true)
    (hprog' : caller'.phase.inProgress = true) : n = n' := by
  have hown := hexact.own n caller hg hprog
  rw [hid, hexact.own n' caller' hg' hprog'] at hown
  exact (Channel.run.inj (some.inj hown)).symm

theorem State.Exact.card_running_le (hexact : s.Exact config) :
    s.running.card ≤ s.currentTaskCount := by
  have hmp : Set.MapsTo (fun n => (s.callers.get n).map Caller.id) s.running
      (s.watchers.keys.map some).toFinset := by
    intro n hn
    obtain ⟨caller, hg, hrunn⟩ := Table.mem_support.mp hn
    have hown := hexact.own n caller hg (Phase.inProgress_of_isRunning hrunn)
    have hkey : caller.id ∈ s.watchers.keys := mem_keys_of_get hown
    rw [Finset.mem_coe, List.mem_toFinset]
    show (s.callers.get n).map Caller.id ∈ _
    rw [hg]
    exact mem_map_of_mem hkey
  have hinj : Set.InjOn (fun n => (s.callers.get n).map Caller.id) s.running := by
    intro n hn n' hn' heq
    obtain ⟨caller, hg, hrunn⟩ := Table.mem_support.mp hn
    obtain ⟨caller', hg', hrunn'⟩ := Table.mem_support.mp hn'
    simp only [hg, hg', map_some, some.injEq] at heq
    exact hexact.unique hg hg' heq (Phase.inProgress_of_isRunning hrunn)
      (Phase.inProgress_of_isRunning hrunn')
  calc s.running.card ≤ (s.watchers.keys.map some).toFinset.card :=
        Finset.card_le_card_of_injOn _ hmp hinj
    _ ≤ (s.watchers.keys.map some).length := List.toFinset_card_le _
    _ = s.currentTaskCount := length_map _


variable [DecidableEq T]

/-- **What a step keeps.** -/
theorem Step.exact {action : Action Id T V} {s' : State Id T V} (hst : Step s action s')
    (hser : Serial config s action) (hexact : s.Exact config) : s'.Exact config := by
  cases hst with
  | called n id typeId hfre =>
    refine ⟨fun m other hoth hprog => ?_, hexact.fits⟩
    rcases State.get_put_cases hoth with ⟨-, rfl⟩ | ⟨-, hold⟩
    · cases hprog
    · exact hexact.own m other hold hprog
  | waits n caller receiver hg hph | refused n caller error hg hph
  | receives n caller receiver content hg hph hcon =>
    exact hexact.put hg rfl nofun
  | passes n caller phase hg hph =>
    refine hexact.put hg rfl ?_
    rcases hph with ⟨-, rfl | rfl⟩ | ⟨-, rfl⟩ <;> exact nofun
  | enqueues n caller hg hph =>
    exact (hexact.withQueue (s.queue.insert caller.id (.queued n))).put hg rfl nofun
  | turns n caller phase hg hph hph' =>
    exact hexact.put hg rfl fun h => absurd hph' (Phase.not_inQueue_of_inProgress h)
  | dequeues n caller hg hph =>
    exact (hexact.withQueue (s.queue.shiftRemove caller.id)).put hg rfl nofun
  | inserts n caller queued hg hph =>
    obtain ⟨hfre, hrm⟩ := hser caller hg (by rw [hph]; rfl)
    exact hexact.begin rfl hfre hrm
  | finishes n caller queued value hg hph => exact hexact.put hg rfl fun _ => by rw [hph]; rfl
  | removes n caller queued value hg hph => exact hexact.remove hg (by rw [hph]; rfl) rfl
  | dropped n caller hg hend => exact hser.elim

theorem exact_of_run {history : List (State Id T V × Action Id T V)} {s : State Id T V}
    (hrun : Run (exec config) (Serial config) .empty history s) : s.Exact config := by
  refine hrun.invariant (P := State.Exact config) (fun s action hser hexact => ?_)
    ⟨nofun, fun _ _ => Nat.zero_le _⟩
  obtain hsm | hst := exec_step config s action
  · rw [hsm]
    exact hexact
  · exact hst.exact hser hexact

end Exact

/-! ## What a waiting caller is answered -/

/-- It has left the queue's loop, or is in it: it came through the queue and has not been answered
by another. -/
def Caller.throughQueue (caller : Caller Id T V) : Bool :=
  match caller.phase with
  | .spin => true
  | .head => true
  | .dequeue => true
  | .insert queued => queued
  | .running queued => queued
  | .finishing queued _ => queued
  | .returned _ => caller.sentQueued.isSome
  | _ => false

/-- Its run has begun, and nobody has dropped it. -/
def Caller.begun (caller : Caller Id T V) : Bool := caller.phase.inProgress || caller.sentRun.isSome

/-- Its function has returned, or it will never be called. -/
def Phase.settled : Phase V → Bool
  | .finishing _ _ => true
  | phase => phase.ended

variable {phase : Phase V}

/-- What a caller's channels hold at its await point. -/
structure Caller.Sane (caller : Caller Id T V) : Prop where
  run : ∀ any, caller.sentRun = some any → caller.phase.settled = true
  finishing : ∀ queued value, caller.phase = .finishing queued value →
    caller.sentRun = some ⟨caller.typeId, value⟩
  queued : ∀ any, caller.sentQueued = some any →
    caller.sentRun = some any ∧ caller.phase.ended = true

namespace Caller.Sane

variable {caller : Caller Id T V}

theorem sentRun_none (hsa : caller.Sane) (hph : caller.phase.settled = false) :
    caller.sentRun = none := by
  cases hsn : caller.sentRun with
  | none => rfl
  | some any =>
    rw [hsa.run any hsn] at hph
    cases hph

theorem sentQueued_none (hsa : caller.Sane) (hph : caller.phase.ended = false) :
    caller.sentQueued = none := by
  cases hsn : caller.sentQueued with
  | none => rfl
  | some any =>
    rw [(hsa.queued any hsn).2] at hph
    cases hph

/-- Nothing is sent where a caller moves whose function has not returned. -/
theorem move (hsa : caller.Sane) (hph : caller.phase.settled = false)
    (hnot : ∀ queued value, phase ≠ .finishing queued value) : (caller.at phase).Sane where
  run any hsn := by
    rw [Caller.at, hsa.sentRun_none hph] at hsn
    cases hsn
  finishing queued value heq := absurd heq (hnot queued value)
  queued any hsn := by
    have hend : caller.phase.ended = false := by
      cases hcall : caller.phase <;> rw [hcall] at hph <;> first | rfl | cases hph
    rw [Caller.at, hsa.sentQueued_none hend] at hsn
    cases hsn

end Caller.Sane

def State.Sane (s : State Id T V) : Prop := ∀ n caller, s.callers.get n = some caller → caller.Sane

/-- What the steps of a caller keep of it. -/
structure Caller.Evolves (caller caller' : Caller Id T V) : Prop where
  id : caller'.id = caller.id
  sentRun : ∀ any, caller.sentRun = some any → caller'.sentRun = some any
  begun : caller.begun = true → caller'.begun = true
  throughQueue : caller.throughQueue = true → caller'.throughQueue = true
  /-- A run begins in progress. -/
  begins : caller'.begun = true → caller.begun = true ∨ caller'.phase.inProgress = true

namespace Caller.Evolves

variable {caller caller' : Caller Id T V}

theorem rfl : caller.Evolves caller where
  id := Eq.refl _
  sentRun _ h := h
  begun h := h
  throughQueue h := h
  begins h := .inl h

theorem move (hprog : caller.phase.inProgress = true → phase.inProgress = true)
    (hq : caller.throughQueue = true → (caller.at phase).throughQueue = true) :
    caller.Evolves (caller.at phase) where
  id := Eq.refl _
  sentRun _ h := h
  begun h := by
    rcases or_eq_true_iff.mp h with h | h
    · exact or_eq_true_iff.mpr (.inl (hprog h))
    · exact or_eq_true_iff.mpr (.inr h)
  throughQueue := hq
  begins h := by
    rcases or_eq_true_iff.mp h with h | h
    · exact .inr h
    · exact .inl (or_eq_true_iff.mpr (.inr h))

end Caller.Evolves

/-- It has entered neither map. -/
def Phase.outside : Phase V → Bool
  | .start => true
  | .waiting _ => true
  | .readQueue => true
  | .enqueue => true
  | _ => false

variable {caller : Caller Id T V}

/-- A caller that has entered neither map may go anywhere. -/
theorem Caller.Evolves.of_outside (h : caller.phase.outside = true)
    : caller.Evolves (caller.at phase) := by
  refine .move (fun h' => ?_) (fun h' => ?_)
  · cases hph : caller.phase <;> rw [hph] at h h' <;>
      first | (cases h; done) | cases h'
  · unfold Caller.throughQueue at h'
    cases hph : caller.phase <;> rw [hph] at h h' <;>
      first | (cases h; done) | cases h'

theorem Phase.settled_of_outside (h : phase.outside = true) : phase.settled = false := by
  cases phase <;> first | rfl | cases h

section Steps

variable [DecidableEq Id] [DecidableEq T] {s s' : State Id T V} {action : Action Id T V}

def NoDrop (_ : State Id T V) : Action Id T V → Prop
  | .drop _ => False
  | _ => True

omit [DecidableEq T] in
theorem noDrop_of_serial {config : CoalescionServiceConfig} (h : Serial config s action) :
    NoDrop s action := by
  cases action with
  | drop n => exact h.elim
  | _ => trivial

/-- **What a step does to the callers**: one of them comes, or one of them moves on. -/
theorem Step.moves (hst : Step s action s') (hdr : NoDrop s action) (hsa : s.Sane) :
    (∃ n id typeId, action = .call n id typeId ∧ s.callers.get n = none ∧
        s'.callers = s.callers.insert n ⟨id, typeId, .start, none, none⟩) ∨
      ∃ n caller caller', s.callers.get n = some caller ∧
        s'.callers = s.callers.insert n caller' ∧ caller.Evolves caller' ∧ caller'.Sane := by
  cases hst with
  | called n id typeId hfre => exact .inl ⟨n, id, typeId, rfl, hfre, rfl⟩
  | waits n caller receiver hg hph | refused n caller error hg hph =>
    have hout : caller.phase.outside = true := by
      rcases hph with ⟨hph, -⟩ | ⟨hph, -⟩ <;> rw [hph] <;> rfl
    exact .inr ⟨n, caller, _, hg, rfl, .of_outside hout,
      (hsa n caller hg).move (Phase.settled_of_outside hout) nofun⟩
  | passes n caller phase hg hph =>
    have hout : caller.phase.outside = true := by
      rcases hph with ⟨hph, -⟩ | ⟨hph, -⟩ <;> rw [hph] <;> rfl
    refine .inr ⟨n, caller, _, hg, rfl, .of_outside hout,
      (hsa n caller hg).move (Phase.settled_of_outside hout) ?_⟩
    rcases hph with ⟨-, rfl | rfl⟩ | ⟨-, rfl⟩ <;> exact nofun
  | receives n caller receiver content hg hph hcon | enqueues n caller hg hph =>
    have hout : caller.phase.outside = true := by
      rw [hph]
      rfl
    exact .inr ⟨n, caller, _, hg, rfl, .of_outside hout,
      (hsa n caller hg).move (Phase.settled_of_outside hout) nofun⟩
  | turns n caller phase hg hph hph' =>
    refine .inr ⟨n, caller, _, hg, rfl, .move ?_ ?_, (hsa n caller hg).move ?_ ?_⟩
    · exact fun h => absurd hph (Phase.not_inQueue_of_inProgress h)
    · intro _
      cases phase <;> first | rfl | cases hph'
    · cases hcall : caller.phase <;> rw [hcall] at hph <;> first | rfl | cases hph
    · rintro queued value rfl
      cases hph'
  | dequeues n caller hg hph =>
    refine .inr ⟨n, caller, _, hg, rfl, .move ?_ fun _ => rfl, (hsa n caller hg).move ?_ nofun⟩
    · rw [hph]
      exact nofun
    · rw [hph]
      rfl
  | inserts n caller queued hg hph =>
    refine .inr ⟨n, caller, _, hg, rfl, .move (fun _ => rfl) ?_, (hsa n caller hg).move ?_ nofun⟩
    · simp only [Caller.throughQueue, hph]
      exact id
    · rw [hph]
      rfl
  | finishes n caller queued value hg hph =>
    have hno : caller.sentRun = none := (hsa n caller hg).sentRun_none (by rw [hph]; rfl)
    have hque : caller.sentQueued = none := (hsa n caller hg).sentQueued_none (by rw [hph]; rfl)
    refine .inr ⟨n, caller, _, hg, rfl, ⟨rfl, ?_, fun _ => rfl, ?_, fun _ => .inr rfl⟩,
      ⟨fun _ _ => rfl, ?_, ?_⟩⟩
    · rw [hno]
      exact nofun
    · simp only [Caller.throughQueue, hph]
      exact id
    · rintro queued' value' heq
      rw [(Phase.finishing.inj heq).2]
    · rw [hque]
      exact nofun
  | removes n caller queued value hg hph =>
    have hsn := (hsa n caller hg).finishing queued value hph
    refine .inr ⟨n, caller, _, hg, rfl, ⟨rfl, fun _ h => h, ?_, ?_, ?_⟩,
      ⟨fun _ _ => rfl, nofun, ?_⟩⟩
    · intro _
      exact or_eq_true_iff.mpr (.inr (by rw [hsn]; rfl))
    · simp only [Caller.throughQueue, hph]
      rintro rfl
      rfl
    · intro _
      exact .inl (or_eq_true_iff.mpr (.inl (by rw [hph]; rfl)))
    · intro any hany
      split_ifs at hany
      exact ⟨hsn.trans hany, rfl⟩
  | dropped n caller hg hend => exact hdr.elim

/-- The callers of a channel: the one whose run it is, and the one that stands in the queue. -/
def Channel.runs (channel : Channel) (n : Nat) : Prop := channel = .run n

def Channel.queues (channel : Channel) (n : Nat) : Prop := channel = .queued n

/-- In the state the caller `n` has not returned yet, and the run of `m` is in progress. -/
def State.During (s : State Id T V) (n m : Nat) : Prop :=
  (∃ caller, s.callers.get n = some caller ∧ caller.phase.ended = false) ∧
    ∃ other, s.callers.get m = some other ∧ other.phase.inProgress = true

/-- The run of `m` was in progress at some time during the call of `n`. -/
def Met (history : List (State Id T V × Action Id T V)) (s : State Id T V) (n m : Nat) : Prop :=
  s.During n m ∨ ∃ entry ∈ history, entry.1.During n m

variable {history : List (State Id T V × Action Id T V)}

omit [DecidableEq Id] [DecidableEq T] in
theorem Met.step {n m : Nat} (h : Met history s n m) : Met (history ++ [(s, action)]) s' n m := by
  refine .inr ?_
  rcases h with h | ⟨entry, hent, h⟩
  · exact ⟨_, mem_append_right _ (List.mem_singleton_self _), h⟩
  · exact ⟨entry, mem_append_left _ hent, h⟩

/-- What a caller may count on that waits for a channel: the run has begun during its call, or it
comes when its turn in the queue does. -/
def Promised (history : List (State Id T V × Action Id T V)) (s : State Id T V) (n : Nat)
    (caller : Caller Id T V) : Channel → Prop
  | .run m => ∃ other, s.callers.get m = some other ∧ other.id = caller.id ∧
      other.begun = true ∧ Met history s n m
  | .queued m => ∃ other, s.callers.get m = some other ∧ other.id = caller.id ∧
      other.throughQueue = true ∧ (other.begun = true → Met history s n m)

/-- A caller is answered with the value of a run of its id that was in progress during its call. -/
def Answered (history : List (State Id T V × Action Id T V)) (s : State Id T V) (n : Nat)
    (caller : Caller Id T V) (result : Except Error V) : Prop :=
  ∃ m other any, s.callers.get m = some other ∧ other.id = caller.id ∧
    other.sentRun = some any ∧ Met history s n m ∧ result = any.downcast caller.typeId

/-- What every caller is promised or was answered. -/
structure Answers (history : List (State Id T V × Action Id T V)) (s : State Id T V) : Prop where
  sane : s.Sane
  tidy : s.Tidy Channel.runs Channel.queues
  waiting : ∀ n caller receiver, s.callers.get n = some caller →
    caller.phase = .waiting receiver → Promised history s n caller receiver
  returned : ∀ n caller result, s.callers.get n = some caller →
    caller.phase = .returned result → caller.sentRun = none →
      result = .error .maxConcurrent ∨ result = .error .maxQueue ∨
        Answered history s n caller result

/-- What the step does to the others. -/
def Keeps (s s' : State Id T V) : Prop :=
  ∀ m other, s.callers.get m = some other →
    ∃ other', s'.callers.get m = some other' ∧ other.Evolves other'

theorem Step.keeps (hst : Step s action s') (hdr : NoDrop s action) (hsa : s.Sane) :
    Keeps s s' := by
  intro m other hoth
  obtain ⟨n, id, typeId, -, hfre, hcal⟩ | ⟨n, caller, caller', hg, hcal, hevo, -⟩ :=
    hst.moves hdr hsa
  · have hm : m ≠ n := by
      rintro rfl
      rw [hfre] at hoth
      cases hoth
    exact ⟨other, by rw [hcal, get_insert, if_neg hm, hoth], .rfl⟩
  · by_cases hm : m = n
    · subst hm
      cases hg.symm.trans hoth
      exact ⟨caller', by rw [hcal, get_insert_self], hevo⟩
    · exact ⟨other, by rw [hcal, get_insert, if_neg hm, hoth], .rfl⟩

variable {receiver : Channel} {n : Nat}

omit [DecidableEq Id] [DecidableEq T] in
/-- A promise stands while the caller waits. -/
theorem Promised.step (hkee : Keeps s s')
    (hg' : s'.callers.get n = some caller) (hend : caller.phase.ended = false)
    (h : Promised history s n caller receiver) :
    Promised (history ++ [(s, action)]) s' n caller receiver := by
  cases receiver with
  | run m =>
    obtain ⟨other, hoth, hid, hbeg, hmet⟩ := h
    obtain ⟨other', hoth', hevo⟩ := hkee m other hoth
    exact ⟨other', hoth', hevo.id.trans hid, hevo.begun hbeg, hmet.step⟩
  | queued m =>
    obtain ⟨other, hoth, hid, hq, hmet⟩ := h
    obtain ⟨other', hoth', hevo⟩ := hkee m other hoth
    refine ⟨other', hoth', hevo.id.trans hid, hevo.throughQueue hq, fun hbeg => ?_⟩
    rcases hevo.begins hbeg with hbef | hprog
    · exact (hmet hbef).step
    · exact .inl ⟨⟨caller, hg', hend⟩, other', hoth', hprog⟩

variable {result : Except Error V}

omit [DecidableEq Id] in
theorem Answered.step (hkee : Keeps s s') (h : Answered history s n caller result) :
    Answered (history ++ [(s, action)]) s' n caller result := by
  obtain ⟨m, other, any, hoth, hid, hsn, hmet, rfl⟩ := h
  obtain ⟨other', hoth', hevo⟩ := hkee m other hoth
  exact ⟨m, other', any, hoth', hevo.id.trans hid, hevo.sentRun any hsn, hmet.step, rfl⟩

omit [DecidableEq Id] in
/-- A promise is kept: what a caller receives is the value of the run. -/
theorem Promised.receive (hsa : s.Sane)
    (h : Promised history s n caller receiver) {content : Except Error (Any T V)}
    (hcon : s.received receiver = some content) :
    Answered history s n caller (content.bind fun any => any.downcast caller.typeId) := by
  cases receiver with
  | run m =>
    obtain ⟨other, hoth, hid, hbeg, hmet⟩ := h
    simp only [State.received, hoth, bind_some, Caller.received] at hcon
    cases hsn : other.sentRun with
    | some any =>
      rw [hsn] at hcon
      obtain rfl : Except.ok any = content := some.inj hcon
      exact ⟨m, other, any, hoth, hid, hsn, hmet, rfl⟩
    | none =>
      rw [Caller.begun, hsn, Option.isSome_none, Bool.or_false] at hbeg
      rw [hsn, Phase.not_ended_of_inProgress hbeg] at hcon
      cases hcon
  | queued m =>
    obtain ⟨other, hoth, hid, hq, hmet⟩ := h
    simp only [State.received, hoth, bind_some, Caller.received] at hcon
    cases hsn : other.sentQueued with
    | some any =>
      rw [hsn] at hcon
      obtain rfl : Except.ok any = content := some.inj hcon
      have hrun := ((hsa m other hoth).queued any hsn).1
      exact ⟨m, other, any, hoth, hid, hrun,
        hmet (or_eq_true_iff.mpr (.inr (by rw [hrun]; rfl))), rfl⟩
    | none =>
      have hend : other.phase.ended = false := by
        unfold Caller.throughQueue at hq
        cases hph : other.phase <;> rw [hph] at hq <;>
          first | rfl | (rw [hsn] at hq; cases hq)
      rw [hsn, hend] at hcon
      cases hcon

/-- A promise is given where a channel is found. -/
theorem Answers.promise (hans : Answers history s)
    (hg : s.callers.get n = some caller) (hend : caller.phase.ended = false)
    (hfnd : s.watchers.get caller.id = some receiver ∨ s.queue.get caller.id = some receiver) :
    Promised history s n caller receiver := by
  rcases hfnd with hfnd | hfnd
  · obtain ⟨m, other, rfl, hoth, hid, hprog⟩ := hans.tidy.watchers _ _ hfnd
    exact ⟨other, hoth, hid, or_eq_true_iff.mpr (.inl hprog),
      .inl ⟨⟨caller, hg, hend⟩, other, hoth, hprog⟩⟩
  · obtain ⟨m, other, rfl, hoth, hid, hq⟩ := hans.tidy.queue _ _ hfnd
    refine ⟨other, hoth, hid, ?_, fun hbeg => ?_⟩
    · unfold Caller.throughQueue
      cases hph : other.phase <;> rw [hph] at hq <;> first | rfl | cases hq
    · rcases or_eq_true_iff.mp hbeg with hprog | hsn
      · exact absurd hq (Phase.not_inQueue_of_inProgress hprog)
      · obtain ⟨any, hany⟩ := isSome_iff_exists.mp hsn
        have hset := (hans.sane m other hoth).run any hany
        cases hph : other.phase <;> rw [hph] at hq hset <;>
          first | (cases hq; done) | cases hset

theorem Step.waiting (hst : Step s action s')
    (hg : s'.callers.get n = some caller) (hph : caller.phase = .waiting receiver) :
    s.callers.get n = some caller ∨ ∃ old, s.callers.get n = some old ∧ caller.id = old.id ∧
      old.phase.ended = false ∧
      (s.watchers.get old.id = some receiver ∨ s.queue.get old.id = some receiver) := by
  cases hst with
  | waits m old receiver' hold hfnd =>
    rcases State.get_put_cases hg with ⟨rfl, rfl⟩ | ⟨-, hkp⟩
    · obtain rfl : receiver' = receiver := Phase.waiting.inj hph
      rcases hfnd with ⟨hold', hfnd⟩ | ⟨hold', hfnd⟩
      · exact .inr ⟨old, hold, rfl, by rw [hold']; rfl, .inl hfnd⟩
      · exact .inr ⟨old, hold, rfl, by rw [hold']; rfl, .inr hfnd⟩
    · exact .inl hkp
  | passes m old phase hold hfr =>
    rcases State.get_put_cases hg with ⟨rfl, rfl⟩ | ⟨-, hkp⟩
    · rcases hfr with ⟨-, rfl | rfl⟩ | ⟨-, rfl⟩ <;> cases hph
    · exact .inl hkp
  | turns m old phase hold hfr hto =>
    rcases State.get_put_cases hg with ⟨rfl, rfl⟩ | ⟨-, hkp⟩
    · obtain rfl : phase = .waiting receiver := hph
      cases hto
    · exact .inl hkp
  | _ =>
    rcases State.get_put_cases hg with ⟨rfl, rfl⟩ | ⟨-, hkp⟩
    · cases hph
    · exact .inl hkp

theorem Step.returned (hst : Step s action s') (hdr : NoDrop s action) (hsa : s.Sane)
    (hg : s'.callers.get n = some caller) (hph : caller.phase = .returned result)
    (hsn : caller.sentRun = none) :
    s.callers.get n = some caller ∨ result = .error .maxConcurrent ∨ result = .error .maxQueue ∨
      ∃ old receiver content, s.callers.get n = some old ∧ caller.id = old.id ∧
        caller.typeId = old.typeId ∧ old.phase = .waiting receiver ∧
        s.received receiver = some content ∧
        result = content.bind fun any => any.downcast old.typeId := by
  cases hst with
  | refused m old error hold hfr =>
    rcases State.get_put_cases hg with ⟨rfl, rfl⟩ | ⟨-, hkp⟩
    · obtain rfl : Except.error error = result := Phase.returned.inj hph
      rcases hfr with ⟨-, rfl⟩ | ⟨-, rfl⟩
      · exact .inr (.inl rfl)
      · exact .inr (.inr (.inl rfl))
    · exact .inl hkp
  | receives m old receiver content hold hfr hcon =>
    rcases State.get_put_cases hg with ⟨rfl, rfl⟩ | ⟨-, hkp⟩
    · exact .inr (.inr (.inr ⟨old, receiver, content, hold, rfl, rfl, hfr, hcon,
        (Phase.returned.inj hph).symm⟩))
    · exact .inl hkp
  | removes m old queued value hold hfr =>
    rcases State.get_put_cases hg with ⟨rfl, rfl⟩ | ⟨-, hkp⟩
    · rw [(hsa n old hold).finishing queued value hfr] at hsn
      cases hsn
    · exact .inl hkp
  | passes m old phase hold hfr =>
    rcases State.get_put_cases hg with ⟨rfl, rfl⟩ | ⟨-, hkp⟩
    · rcases hfr with ⟨-, rfl | rfl⟩ | ⟨-, rfl⟩ <;> cases hph
    · exact .inl hkp
  | turns m old phase hold hfr hto =>
    rcases State.get_put_cases hg with ⟨rfl, rfl⟩ | ⟨-, hkp⟩
    · obtain rfl : phase = .returned result := hph
      cases hto
    · exact .inl hkp
  | dropped => exact hdr.elim
  | _ =>
    rcases State.get_put_cases hg with ⟨rfl, rfl⟩ | ⟨-, hkp⟩
    · cases hph
    · exact .inl hkp

omit [DecidableEq Id] [DecidableEq T] in
theorem Promised.of_id {caller caller' : Caller Id T V} (hid : caller'.id = caller.id)
    (h : Promised history s n caller receiver) :
    Promised history s n caller' receiver := by
  cases receiver <;> unfold Promised <;> rw [hid] <;> exact h

omit [DecidableEq Id] in
theorem Answered.of_id {caller caller' : Caller Id T V} (hid : caller'.id = caller.id)
    (hty : caller'.typeId = caller.typeId)
    (h : Answered history s n caller result) : Answered history s n caller' result := by
  unfold Answered
  rw [hid, hty]
  exact h

/-- **What a step keeps.** -/
theorem Answers.step (hans : Answers history s) (hst : Step s action s')
    (hdr : NoDrop s action) : Answers (history ++ [(s, action)]) s' := by
  have hkee : Keeps s s' := hst.keeps hdr hans.sane
  refine ⟨fun n caller hg => ?_, ?_, fun n caller receiver hg hph => ?_,
    fun n caller result hg hph hsn => ?_⟩
  · obtain ⟨m, id, typeId, -, hfre, hcal⟩ | ⟨m, old, caller', hold, hcal, -, hsa⟩ :=
      hst.moves hdr hans.sane
    · rw [hcal, get_insert] at hg
      split_ifs at hg with hn
      · cases hg
        exact ⟨fun _ h => (by cases h), fun _ _ h => (by cases h), fun _ h => (by cases h)⟩
      · exact hans.sane n caller hg
    · rw [hcal, get_insert] at hg
      split_ifs at hg with hn
      · cases hg
        exact hsa
      · exact hans.sane n caller hg
  · refine hst.tidy (fun _ => rfl) (fun _ => rfl) ?_ hans.tidy
    rintro n caller rfl -
    exact hdr.elim
  · have hend : caller.phase.ended = false := by
      rw [hph]
      rfl
    rcases hst.waiting hg hph with hkp | ⟨old, hold, hid, hold', hfnd⟩
    · exact (hans.waiting n caller receiver hkp hph).step hkee hg hend
    · exact ((hans.promise hold hold' hfnd).of_id hid).step hkee hg hend
  · rcases hst.returned hdr hans.sane hg hph hsn with hkp | h | h |
      ⟨old, receiver, content, hold, hid, hty, hwt, hcon, rfl⟩
    · rcases hans.returned n caller result hkp hph hsn with h | h | h
      · exact .inl h
      · exact .inr (.inl h)
      · exact .inr (.inr (h.step hkee))
    · exact .inl h
    · exact .inr (.inl h)
    · have hansw := (hans.waiting n old receiver hold hwt).receive hans.sane hcon
      exact .inr (.inr ((hansw.of_id hid hty).step hkee))

theorem Answers.quiet (hans : Answers history s) : Answers (history ++ [(s, action)]) s := by
  have hkee : Keeps s s := fun m other hoth => ⟨other, hoth, .rfl⟩
  refine ⟨hans.sane, hans.tidy, fun n caller receiver hg hph => ?_,
    fun n caller result hg hph hsn => ?_⟩
  · exact (hans.waiting n caller receiver hg hph).step hkee hg (by rw [hph]; rfl)
  · rcases hans.returned n caller result hg hph hsn with h | h | h
    · exact .inl h
    · exact .inr (.inl h)
    · exact .inr (.inr (h.step hkee))

theorem answers_of_run {config : CoalescionServiceConfig}
    (hrun : Run (exec config) NoDrop .empty history s) : Answers history s := by
  refine hrun.invariant_history ⟨nofun, ⟨nofun, nofun⟩, nofun, nofun⟩
    fun history s action _ hdr hans => ?_
  obtain hsm | hst := exec_step config s action
  · rw [hsm]
    exact hans.quiet
  · exact hans.step hst hdr

/-- **One run of an id at a time, no more than may run, and a waiting caller is answered with the
value of a run it has waited for.** Who is refused is told so. -/
theorem coalesces {config : CoalescionServiceConfig}
    (hrun : Run (exec config) (Serial config) .empty history s) :
    (∀ n n' caller caller', s.callers.get n = some caller → s.callers.get n' = some caller' →
        caller.id = caller'.id → caller.phase.isRunning = true →
          caller'.phase.isRunning = true → n = n') ∧
      (∀ maxConcurrent, config.maxConcurrent = some maxConcurrent →
        s.running.card ≤ maxConcurrent) ∧
      ∀ n caller result, s.callers.get n = some caller → caller.phase = .returned result →
        caller.sentRun = none → result = .error .maxConcurrent ∨ result = .error .maxQueue ∨
            Answered history s n caller result := by
  have hexact : s.Exact config := exact_of_run hrun
  have hanswers : Answers history s := answers_of_run (hrun.mono fun _ _ => noDrop_of_serial)
  refine ⟨fun n n' caller caller' hget hget' hid hrunning hrunning' => ?_,
    fun maxConcurrent hmax => ?_, hanswers.returned⟩
  · exact hexact.unique hget hget' hid (Phase.inProgress_of_isRunning hrunning)
      (Phase.inProgress_of_isRunning hrunning')
  · exact hexact.card_running_le.trans (hexact.fits maxConcurrent hmax)

end Steps

/-! ## Two callers at once -/

/-- The second caller comes while the function of the first is running, and waits for it. -/
def oneAfterTheOther : List (Action Nat Nat Nat) :=
  [.call 0 7 1, .step 0, .step 0, .call 1 7 1, .step 1, .finish 0 5, .step 1, .step 0]

def bothAnswered : State Nat Nat Nat := execAll (exec .default) .empty oneAfterTheOther

theorem coalesces_one_after_the_other : bothAnswered.running.card ≤ 100 ∧
    ∃ caller, bothAnswered.callers.get 1 = some caller ∧
      Answered (historyOf (exec .default) .empty oneAfterTheOther) bothAnswered 1 caller
        (.ok 5) := by
  have hrun : Run (exec .default) (Serial .default) .empty _ bothAnswered :=
    Run.of_admitsAll (by decide)
  obtain ⟨-, hmax, hanswers⟩ := coalesces hrun
  refine ⟨hmax 100 rfl, _, rfl, ?_⟩
  exact ((hanswers 1 _ _ rfl rfl rfl).resolve_left nofun).resolve_left nofun

/-- Both callers read `watchers` before either enters it. -/
def bothAtOnce : List (Action Nat Nat Nat) :=
  [.call 0 7 1, .call 1 7 1, .step 0, .step 1, .step 0, .step 1]

theorem both_run_at_once :
    ¬ ∀ (history : List (State Nat Nat Nat × Action Nat Nat Nat)) (s : State Nat Nat Nat),
      Run (exec .default) NoDrop .empty history s →
        ∀ n n' caller caller', s.callers.get n = some caller → s.callers.get n' = some caller' →
          caller.id = caller'.id → caller.phase.isRunning = true →
            caller'.phase.isRunning = true → n = n' := by
  intro hclaim
  have hrun : Run (exec .default) NoDrop (.empty : State Nat Nat Nat) _
      (execAll (exec .default) .empty bothAtOnce) :=
    Run.of_admitsAll ⟨trivial, trivial, trivial, trivial, trivial, trivial, trivial⟩
  exact absurd (hclaim _ _ hrun 0 1 _ _ rfl rfl rfl rfl rfl) Nat.zero_ne_one

end SlogaBackend.Coalesced
