import SlogaBackend.Coalesced.Service

/-!
# The entries of the two maps

A caller enters `watchers` before its function starts and leaves it after it has ended, and so with
`queue` around the wait for a place. Whoever leaves a map takes the entry of its id out, whether
it is its own or that of another caller, so an entry that is found in a map has a caller of its id
that has not left it.

`Covered` says this of one map, and how the caller is the entry's is a parameter: as long as nobody
is dropped it is the one that sends to the channel of the entry, and otherwise just any.
-/

namespace SlogaBackend.Coalesced

variable {Id T V : Type}

/-- Each entry of a map has a caller of its id at a stage. -/
def Covered (entries : Id → Option Channel) (owns : Channel → Nat → Prop) (stage : Phase V → Bool)
    (callers : Table Nat (Caller Id T V)) : Prop :=
  ∀ id channel, entries id = some channel →
    ∃ n caller, owns channel n ∧ callers.get n = some caller ∧ caller.id = id ∧
      stage caller.phase = true

namespace Covered

variable {entries entries' : Id → Option Channel} {owns : Channel → Nat → Prop}
  {stage : Phase V → Bool} {callers : Table Nat (Caller Id T V)} {n : Nat}
  {caller caller' : Caller Id T V}

section

variable (hcov : Covered entries owns stage callers)
include hcov

theorem put (hg : callers.get n = some caller) (hid : caller'.id = caller.id)
    (hstg : stage caller.phase = true → stage caller'.phase = true) :
    Covered entries owns stage (callers.insert n caller') := by
  intro id channel hent
  obtain ⟨m, other, how, hoth, hoths, hat⟩ := hcov id channel hent
  by_cases hm : m = n
  · subst hm
    cases hoth.symm.trans hg
    exact ⟨m, caller', how, by rw [get_insert_self], hid.trans hoths, hstg hat⟩
  · exact ⟨m, other, how, by rw [get_insert, if_neg hm, hoth], hoths, hat⟩

theorem called (hfr : callers.get n = none) :
    Covered entries owns stage (callers.insert n caller') := by
  intro id channel hent
  obtain ⟨m, other, how, hoth, hat⟩ := hcov id channel hent
  have hm : m ≠ n := by
    rintro rfl
    rw [hfr] at hoth
    cases hoth
  exact ⟨m, other, how, by rw [get_insert, if_neg hm, hoth], hat⟩

theorem enter (hg : callers.get n = some caller)
    (hid : caller'.id = caller.id) (hstg : stage caller'.phase = true)
    (hnew : ∀ channel, entries' caller.id = some channel → owns channel n)
    (hents : ∀ id, id ≠ caller.id → entries' id = entries id) :
    Covered entries' owns stage (callers.insert n caller') := by
  intro id channel hent
  by_cases hne : id = caller.id
  · subst hne
    exact ⟨n, caller', hnew channel hent, by rw [get_insert_self], hid, hstg⟩
  · rw [hents id hne] at hent
    exact hcov.put hg hid (fun _ => hstg) id channel hent

theorem leave (hg : callers.get n = some caller) (hgn : entries' caller.id = none)
    (hents : ∀ id, id ≠ caller.id → entries' id = entries id) :
    Covered entries' owns stage (callers.insert n caller') := by
  intro id channel hent
  have hne : id ≠ caller.id := by
    rintro rfl
    rw [hgn] at hent
    cases hent
  rw [hents id hne] at hent
  obtain ⟨m, other, how, hoth, hoths, hat⟩ := hcov id channel hent
  have hm : m ≠ n := by
    rintro rfl
    cases hoth.symm.trans hg
    exact hne hoths.symm
  exact ⟨m, other, how, by rw [get_insert, if_neg hm, hoth], hoths, hat⟩

theorem replace (hg : callers.get n = some caller)
    (hoth : ∀ channel, stage caller.phase = true → entries caller.id = some channel →
      ∃ n' other, n' ≠ n ∧ owns channel n' ∧ callers.get n' = some other ∧
        other.id = caller.id ∧ stage other.phase = true) :
    Covered entries owns stage (callers.insert n caller') := by
  intro id channel hent
  obtain ⟨m, found, how, hfnd, hfoun, hat⟩ := hcov id channel hent
  by_cases hm : m = n
  · subst hm
    cases hfnd.symm.trans hg
    subst hfoun
    obtain ⟨m', other, hm', how', hoth', hoths, hat'⟩ := hoth channel hat hent
    exact ⟨m', other, how', by rw [get_insert, if_neg hm', hoth'], hoths, hat'⟩
  · exact ⟨m, found, how, by rw [get_insert, if_neg hm, hfnd], hfoun, hat⟩

theorem empty_of_ended (hend : ∀ n caller, callers.get n = some caller → caller.phase.ended = true)
    (hstg : ∀ phase, stage phase = true → phase.ended = false) (id : Id) : entries id = none := by
  cases hent : entries id with
  | none => rfl
  | some channel =>
    obtain ⟨n, caller, -, hg, -, hat⟩ := hcov id channel hent
    have hfal := hstg _ hat
    rw [hend n caller hg] at hfal
    cases hfal

end

end Covered

variable [DecidableEq Id]

/-- Each entry of the maps has a caller of its id that will take it out. -/
structure State.Tidy (s : State Id T V) (watching queueing : Channel → Nat → Prop) : Prop where
  watchers : Covered s.watchers.get watching Phase.inProgress s.callers
  queue : Covered s.queue.get queueing Phase.inQueue s.callers

variable {s : State Id T V} {watching queueing : Channel → Nat → Prop}

theorem State.Tidy.put (htd : s.Tidy watching queueing) {n : Nat} {caller caller' : Caller Id T V}
    (hg : s.callers.get n = some caller) (hid : caller'.id = caller.id)
    (hrun : caller.phase.inProgress = true → caller'.phase.inProgress = true)
    (hq : caller.phase.inQueue = true → caller'.phase.inQueue = true) :
    (s.put n caller').Tidy watching queueing :=
  ⟨htd.watchers.put hg hid hrun, htd.queue.put hg hid hq⟩

/-- Where a caller is dropped, no entry is left without a caller that takes it out. -/
def Action.Replaced (action : Action Id T V) (s : State Id T V)
    (watching queueing : Channel → Nat → Prop) : Prop :=
  ∀ n caller, action = .drop n → s.callers.get n = some caller →
    (∀ channel, caller.phase.inProgress = true → s.watchers.get caller.id = some channel →
      ∃ n' other, n' ≠ n ∧ watching channel n' ∧ s.callers.get n' = some other ∧
        other.id = caller.id ∧ other.phase.inProgress = true) ∧
    ∀ channel, caller.phase.inQueue = true → s.queue.get caller.id = some channel →
      ∃ n' other, n' ≠ n ∧ queueing channel n' ∧ s.callers.get n' = some other ∧
        other.id = caller.id ∧ other.phase.inQueue = true

variable [DecidableEq T]

/-- **What a step keeps.** A caller leaves a stage where it takes the entry of its id out. -/
theorem Step.tidy {action : Action Id T V} {s' : State Id T V} (hst : Step s action s')
    (hwat : ∀ n, watching (.run n) n) (hqueuein : ∀ n, queueing (.queued n) n)
    (hrep : action.Replaced s watching queueing) (htd : s.Tidy watching queueing) :
    s'.Tidy watching queueing := by
  cases hst with
  | called n id typeId hfr => exact ⟨htd.watchers.called hfr, htd.queue.called hfr⟩
  | waits n caller receiver hg hph | refused n caller error hg hph | passes n caller phase hg hph =>
    refine htd.put hg rfl ?_ ?_ <;>
      rcases hph with ⟨hph, -⟩ | ⟨hph, -⟩ <;> rw [hph] <;> exact fun h => by cases h
  | receives n caller receiver content hg hph hcon =>
    refine htd.put hg rfl ?_ ?_ <;> rw [hph] <;> exact fun h => by cases h
  | enqueues n caller hg hph =>
    have hsl : (s.queue.insert caller.id (.queued n)).get caller.id = some (.queued n) := by
      rw [IndexMap.get_insert, if_pos rfl]
    refine ⟨htd.watchers.put hg rfl (by rw [hph]; exact fun h => by cases h),
      htd.queue.enter hg rfl rfl (fun channel hch => ?_) fun id hne => ?_⟩
    · rw [← some.inj (hsl.symm.trans hch)]
      exact hqueuein n
    · rw [State.put, IndexMap.get_insert, if_neg hne]
  | turns n caller phase hg hph hph' =>
    exact htd.put hg rfl (fun h => absurd hph (Phase.not_inQueue_of_inProgress h)) (fun _ => hph')
  | dequeues n caller hg hph =>
    exact ⟨htd.watchers.put hg rfl (by rw [hph]; exact fun h => by cases h),
      htd.queue.leave hg (by rw [State.put, IndexMap.get_shiftRemove, if_pos rfl])
        fun id hne => by rw [State.put, IndexMap.get_shiftRemove, if_neg hne]⟩
  | inserts n caller queued hg hph =>
    have hsl : (s.watchers.insert caller.id (.run n)).get caller.id = some (.run n) := by
      rw [get_insert_self]
    refine ⟨htd.watchers.enter hg rfl rfl (fun channel hch => ?_) fun id hne => ?_,
      htd.queue.put hg rfl (by rw [hph]; exact fun h => by cases h)⟩
    · rw [← some.inj (hsl.symm.trans hch)]
      exact hwat n
    · rw [State.put, get_insert, if_neg hne]
  | finishes n caller queued value hg hph =>
    exact htd.put hg rfl (fun _ => rfl) (by rw [hph]; exact fun h => by cases h)
  | removes n caller queued value hg hph =>
    exact ⟨htd.watchers.leave hg (by rw [State.put, get_erase, if_pos rfl])
        fun id hne => by rw [State.put, get_erase, if_neg hne],
      htd.queue.put hg rfl (by rw [hph]; exact fun h => by cases h)⟩
  | dropped n caller hg hend =>
    obtain ⟨hrun, hq⟩ := hrep n caller rfl hg
    exact ⟨htd.watchers.replace hg hrun, htd.queue.replace hg hq⟩

end SlogaBackend.Coalesced
