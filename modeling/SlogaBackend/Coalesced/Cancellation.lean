import SlogaBackend.Coalesced.Entries

/-!
# Dropped callers and dead entries

An entry of `watchers` is put in before the function starts and taken out by the code after it, and
so is an entry of `queue` around the wait for a place. A caller dropped in between takes nothing
out. As long as another caller of its id is at the same stage the entry is still that one's to
take out; otherwise it is dead, and the next call of the id waits for a channel nobody sends to.

A drop that leaves no dead entry is `Replaced`.
-/

namespace SlogaBackend.Coalesced

variable {Id T V : Type} [DecidableEq Id] {s : State Id T V}

/-- A caller other than `n` of the id is at a stage. -/
def State.OtherAt (s : State Id T V) (stage : Phase V → Bool) (n : Nat) (id : Id) : Prop :=
  ∃ n' ∈ s.callers.keys, n' ≠ n ∧
    (s.callers.get n').any (fun caller => caller.id = id && stage caller.phase) = true

instance (stage : Phase V → Bool) (n : Nat) (id : Id) : Decidable (s.OtherAt stage n id) :=
  inferInstanceAs (Decidable (∃ n' ∈ s.callers.keys, _))

theorem State.OtherAt.exists {stage : Phase V → Bool} {n : Nat} {id : Id}
    (h : s.OtherAt stage n id) :
    ∃ n' caller, n' ≠ n ∧ True ∧ s.callers.get n' = some caller ∧ caller.id = id ∧
      stage caller.phase = true := by
  obtain ⟨n', -, hne, hany⟩ := h
  obtain ⟨caller, hg, hcal⟩ := (Option.any_eq_true _ _).mp hany
  rw [and_eq_true, decide_eq_true_eq] at hcal
  exact ⟨n', caller, hne, trivial, hg, hcal.1, hcal.2⟩

/-- Where a caller is dropped, no entry is left without a caller that takes it out: it has no run
in progress and is not in the queue, or another caller of its id is where it is, or the entry has
been taken out already. -/
def Replaced (s : State Id T V) : Action Id T V → Prop
  | .drop n => ∀ caller ∈ s.callers.get n,
      (caller.phase.inProgress = true → (s.watchers.get caller.id).isSome = true →
        s.OtherAt Phase.inProgress n caller.id) ∧
      (caller.phase.inQueue = true → (s.queue.get caller.id).isSome = true →
        s.OtherAt Phase.inQueue n caller.id)
  | _ => True

instance : ∀ action, Decidable (Replaced s action)
  | .drop _ => inferInstanceAs (Decidable (∀ caller ∈ _, _))
  | .call _ _ _ => isTrue trivial
  | .step _ => isTrue trivial
  | .finish _ _ => isTrue trivial

theorem replaced_of {action : Action Id T V} (h : Replaced s action) :
    action.Replaced s (fun _ _ => True) (fun _ _ => True) := by
  rintro n caller rfl hg
  obtain ⟨hrun, hq⟩ := h caller hg
  refine ⟨fun channel hat hent => (hrun hat ?_).exists, fun channel hat hent => (hq hat ?_).exists⟩
  · rw [hent]
    rfl
  · rw [hent]
    rfl

variable [DecidableEq T] {config : CoalescionServiceConfig}

theorem tidy_of_run {history : List (State Id T V × Action Id T V)} {s : State Id T V}
    (hrun : Run (exec config) Replaced .empty history s) :
    s.Tidy (fun _ _ => True) (fun _ _ => True) := by
  refine hrun.invariant (P := fun s => s.Tidy (fun _ _ => True) (fun _ _ => True))
    (fun s action hrep htd => ?_) ⟨nofun, nofun⟩
  obtain hsm | hst := exec_step config s action
  · rw [hsm]
    exact htd
  · exact hst.tidy (fun _ => trivial) (fun _ => trivial) (replaced_of hrep) htd

/-! ## After every caller -/

theorem not_full_zero (hlim : config.maxConcurrent ≠ some 0) : config.full 0 = false := by
  unfold CoalescionServiceConfig.full
  cases hmax : config.maxConcurrent with
  | none => rfl
  | some m =>
    rw [hmax] at hlim
    exact decide_eq_false fun hm => hlim (congrArg some (Nat.le_zero.mp hm))

/-- **A call into empty maps runs its function**, and returns its value. -/
theorem runs_of_empty (hlim : config.maxConcurrent ≠ some 0)
    (hwat : ∀ id, s.watchers.get id = none) {n : Nat} (hfr : s.callers.get n = none)
    (id : Id) (typeId : T) (value : V) :
    ((execAll (exec config) s [.call n id typeId, .step n, .step n]).callers.get n).map
        Caller.phase = some (.running false) ∧
      ((execAll (exec config) s [.call n id typeId, .step n, .step n, .finish n value,
        .step n]).callers.get n).map Caller.phase = some (.returned (.ok value)) := by
  have hrm : config.full s.currentTaskCount = false := by
    rw [State.currentTaskCount_eq_zero hwat]
    exact not_full_zero hlim
  let caller : Caller Id T V := ⟨id, typeId, .start, none, none⟩
  have hcl : (exec config s (.call n id typeId)).1 = s.put n caller := by
    simp only [exec, hfr, caller]
  have hstar : (exec config (s.put n caller) (.step n)).1 =
      (s.put n caller).put n (caller.at (.insert false)) :=
    (exec_step_eq config (State.get_put_self ..)).trans (advance_start config rfl (hwat id) hrm)
  have hins : ∀ s : State Id T V, (exec config (s.put n (caller.at (.insert false))) (.step n)).1 =
      { s.put n (caller.at (.insert false)) with watchers := s.watchers.insert id (.run n) }.put n
        ((caller.at (.insert false)).at (.running false)) := fun s =>
    (exec_step_eq config (State.get_put_self ..)).trans (advance_insert config rfl)
  have hfin : ∀ s : State Id T V,
      (((exec config (exec config (s.put n ((caller.at (.insert false)).at (.running false)))
        (.finish n value)).1 (.step n)).1).callers.get n).map Caller.phase =
          some (.returned (.ok value)) := by
    intro s
    rw [exec_finish_eq config (State.get_put_self ..), finish_running rfl,
      exec_step_eq config (State.get_put_self ..)]
    exact congrArg _ (State.get_put_self ..)
  constructor
  · rw [execAll, hcl, execAll, hstar, execAll, hins, execAll, State.get_put_self]
    rfl
  · rw [execAll, hcl, execAll, hstar, execAll, hins, execAll, execAll, execAll, hfin]

/-- **No entry is dead**, as long as a drop leaves none behind. So once every caller has returned
or was dropped, the maps are empty and a new call runs its function. -/
theorem entries_are_alive {config : CoalescionServiceConfig}
    {history : List (State Id T V × Action Id T V)} {s : State Id T V}
    (hrun : Run (exec config) Replaced .empty history s) :
    (∀ id, (s.watchers.get id).isSome = true → ∃ n caller, s.callers.get n = some caller ∧
        caller.id = id ∧ caller.phase.inProgress = true) ∧
      (∀ id, (s.queue.get id).isSome = true → ∃ n caller, s.callers.get n = some caller ∧
        caller.id = id ∧ caller.phase.inQueue = true) ∧
      (s.AllEnded → s.currentTaskCount = 0 ∧ s.currentQueueLen = 0 ∧
        (config.maxConcurrent ≠ some 0 → ∀ n id typeId value, s.callers.get n = none →
          ((execAll (exec config) s [.call n id typeId, .step n, .step n]).callers.get n).map
              Caller.phase = some (.running false) ∧
            ((execAll (exec config) s [.call n id typeId, .step n, .step n, .finish n value,
              .step n]).callers.get n).map Caller.phase = some (.returned (.ok value)))) := by
  have htidy := tidy_of_run hrun
  refine ⟨fun id hid => ?_, fun id hid => ?_, fun hended => ?_⟩
  · obtain ⟨channel, hchannel⟩ := isSome_iff_exists.mp hid
    obtain ⟨n, caller, -, hcaller⟩ := htidy.watchers id channel hchannel
    exact ⟨n, caller, hcaller⟩
  · obtain ⟨channel, hchannel⟩ := isSome_iff_exists.mp hid
    obtain ⟨n, caller, -, hcaller⟩ := htidy.queue id channel hchannel
    exact ⟨n, caller, hcaller⟩
  have hwatchers : ∀ id, s.watchers.get id = none :=
    htidy.watchers.empty_of_ended hended fun _ => Phase.not_ended_of_inProgress
  have hqueue : ∀ id, s.queue.get id = none :=
    htidy.queue.empty_of_ended hended fun _ => Phase.not_ended_of_inQueue
  refine ⟨State.currentTaskCount_eq_zero hwatchers, ?_, fun hlimit n id typeId value hfree =>
    runs_of_empty hlimit hwatchers hfree id typeId value⟩
  exact List.length_eq_zero_iff.mpr (IndexMap.eq_nil_of_get hqueue)

/-! ## A dropped function -/

section Dropped

/-- A caller is dropped while it waits for the lock; the next one runs its function. -/
def droppedEarly : List (Action Nat Nat Nat) :=
  [.call 0 7 1, .step 0, .drop 0, .call 1 7 1, .step 1, .step 1, .finish 1 5, .step 1]

theorem entries_are_alive_dropped_early :
    (execAll (exec .default) (.empty : State Nat Nat Nat) droppedEarly).currentTaskCount = 0 := by
  have hrun : Run (exec .default) Replaced (.empty : State Nat Nat Nat) _
      (execAll (exec .default) .empty droppedEarly) := Run.of_admitsAll (by decide)
  exact ((entries_are_alive hrun).2.2 (State.allEnded_of_all (by decide))).1

/-- A caller is dropped while its function is running, and another one of its id comes. -/
def droppedRunning : List (Action Nat Nat Nat) :=
  [.call 0 7 1, .step 0, .step 0, .drop 0, .call 1 7 1, .step 1, .step 1]

/-- The entry of the dropped caller stays, and what comes after it fails. -/
theorem entry_outlives_its_function :
    (¬ ∀ (history : List (State Nat Nat Nat × Action Nat Nat Nat)) (s : State Nat Nat Nat),
        Run (exec .default) (fun _ _ => True) .empty history s → s.AllEnded →
          s.currentTaskCount = 0) ∧
      ((execAll (exec .default) (.empty : State Nat Nat Nat) droppedRunning).callers.get 1).map
        Caller.phase = some (.returned (.error .recvError)) := by
  refine ⟨fun hclaim => ?_, rfl⟩
  have hzero := hclaim _ _ (Run.of_admitsAll (admitsAll_true (droppedRunning.take 4)))
    (State.allEnded_of_all (by decide))
  exact absurd hzero (by decide)

end Dropped

end SlogaBackend.Coalesced
