import SlogaBackend.Lib.Processes

/-!
# Processes that publish

Besides its calls to the store a process may publish events. A publication is a step of its own,
so another process can come between what is stored and what is published about it. What has been
published is a log beside the store.

* `EachProg`: what holds of all programs still to run, and stays when one of them moves on.
* `SomeProg`: what holds of one of them, and stays when another moves on.
* `System.StepBy`: the condition that each program which takes a step has to meet before it.
-/

namespace SlogaBackend

/-- A call to the store, or the publication of an event. -/
inductive Public (C E : Type) where
  | call (c : C)
  | publish (event : E)

/-- The store, and what has been published, the latest last. -/
structure World (σ : Type*) (E : Type) where
  store : σ
  published : List E

namespace Public

variable {σ : Type*} {C E : Type} {A : C → Type}

abbrev Answer (A : C → Type) : Public C E → Type
  | .call c => A c
  | .publish _ => Unit

def perform (base : Nat → (c : C) → σ → σ × A c) (pid : Nat) :
    (c : Public C E) → World σ E → World σ E × Answer A c
  | .call c, w => ({ w with store := (base pid c w.store).1 }, (base pid c w.store).2)
  | .publish event, w => ({ w with published := w.published ++ [event] }, ())

end Public

/-! ## What holds of all programs, and of some -/

section EachProg

variable {ρ ε C : Type} {A : C → Type} {α : Type}

/-- Every process that has not crashed has a program of this kind left. -/
def EachProg (P : Prog ε C A α → Prop) (processes : Table Nat (Process ρ ε C A α)) : Prop :=
  ∀ pid request prog, processes.get pid = some ⟨request, some prog⟩ → P prog

/-- Some process that has not crashed has a program of this kind left. -/
def SomeProg (P : Prog ε C A α → Prop) (processes : Table Nat (Process ρ ε C A α)) : Prop :=
  ∃ pid request prog, processes.get pid = some ⟨request, some prog⟩ ∧ P prog

variable {P : Prog ε C A α → Prop} {processes : Table Nat (Process ρ ε C A α)}

instance EachProg.decidable [DecidablePred P] : Decidable (EachProg P processes) :=
  decidable_of_iff (∀ process ∈ processes.values, ∀ prog ∈ process.prog, P prog) <| by
    constructor
    · exact fun hall pid request prog hget => hall _ (mem_values.mpr ⟨pid, hget⟩) prog rfl
    · rintro heach ⟨request, prog'⟩ hprocess prog rfl
      obtain ⟨pid, hget⟩ := mem_values.mp hprocess
      exact heach pid request prog hget

instance SomeProg.decidable [DecidablePred P] : Decidable (SomeProg P processes) :=
  decidable_of_iff (¬EachProg (fun prog => ¬P prog) processes) <| by
    unfold EachProg SomeProg
    push Not
    rfl

variable {pid : Nat} {request : ρ} {prog : Prog ε C A α}

variable {prog' : Prog ε C A α}

theorem prog_eq {request' : ρ} (hget : processes.get pid = some ⟨request, some prog⟩)
    (hget' : processes.get pid = some ⟨request', some prog'⟩) : prog' = prog := by
  rw [hget] at hget'
  injection hget' with hprocess
  injection hprocess with _ hprog
  exact (some.inj hprog).symm

/-- Whose program it is after one of them has moved on. -/
theorem get_insert_prog {pid' : Nat} {request' : ρ}
    (hget : (processes.insert pid ⟨request, some prog⟩).get pid' = some ⟨request', some prog'⟩) :
    pid' = pid ∧ prog' = prog ∨
      pid' ≠ pid ∧ processes.get pid' = some ⟨request', some prog'⟩ := by
  rw [get_insert] at hget
  split at hget
  · rename_i hsame
    injection hget with hprocess
    injection hprocess with _ hprog
    exact .inl ⟨hsame, (some.inj hprog).symm⟩
  · rename_i hother
    exact .inr ⟨hother, hget⟩

theorem get_insert_of_ne {pid' : Nat} (hother : pid' ≠ pid) (process : Process ρ ε C A α) :
    (processes.insert pid process).get pid' = processes.get pid' := by
  rw [get_insert, if_neg hother]

theorem EachProg.empty : EachProg P (∅ : Table Nat (Process ρ ε C A α)) := nofun

theorem EachProg.insert (heach : EachProg P processes) (hprog : P prog) :
    EachProg P (processes.insert pid ⟨request, some prog⟩) := by
  intro pid' request' prog' hget
  rcases get_insert_prog hget with ⟨-, rfl⟩ | ⟨-, hget⟩
  · exact hprog
  · exact heach pid' request' prog' hget

theorem SomeProg.insert_self (hprog : P prog) :
    SomeProg P (processes.insert pid ⟨request, some prog⟩) :=
  ⟨pid, request, prog, get_insert_self, hprog⟩

theorem SomeProg.insert (hsome : SomeProg P processes) {process : Process ρ ε C A α}
    (hother : ∀ request prog, processes.get pid = some ⟨request, some prog⟩ → ¬P prog) :
    SomeProg P (processes.insert pid process) := by
  obtain ⟨pid', request', prog', hget, hprog⟩ := hsome
  refine ⟨pid', request', prog', ?_, hprog⟩
  rw [get_insert, if_neg]
  · exact hget
  · rintro rfl
    exact hother request' prog' hget hprog

theorem SomeProg.move (hsome : SomeProg P processes) {request' : ρ}
    (hget : processes.get pid = some ⟨request, some prog⟩) (hstays : P prog → P prog') :
    SomeProg P (processes.insert pid ⟨request', some prog'⟩) := by
  by_cases hprog' : P prog'
  · exact .insert_self hprog'
  · refine hsome.insert fun _ _ hget' hprog => hprog' (hstays ?_)
    rw [prog_eq hget' hget]
    exact hprog

end EachProg

/-! ## Conditions on the steps -/

namespace System

variable {W : Type*} {ρ ε C : Type} {A : C → Type} {α : Type}

/-- Whatever program takes a step is permitted to, and no process stops for good. -/
def StepBy (permits : System W ρ ε C A α → Prog ε C A α → Prop) (sys : System W ρ ε C A α) :
    Event ρ → Prop
  | .start _ _ => True
  | .step pid => ∀ process ∈ sys.processes.get pid, ∀ prog ∈ process.prog, permits sys prog
  | .crash _ => False

instance StepBy.decidable (permits : System W ρ ε C A α → Prog ε C A α → Prop)
    [∀ sys, DecidablePred (permits sys)] (sys : System W ρ ε C A α) :
    ∀ event, Decidable (StepBy permits sys event)
  | .start _ _ => inferInstanceAs (Decidable True)
  | .step pid => inferInstanceAs (Decidable (∀ process ∈ sys.processes.get pid, _))
  | .crash _ => inferInstanceAs (Decidable False)

/-- No process stops for good. -/
abbrev NoCrash (sys : System W ρ ε C A α) : Event ρ → Prop := StepBy (fun _ _ => True) sys

end System

end SlogaBackend
