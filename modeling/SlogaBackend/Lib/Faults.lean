import SlogaBackend.Lib.Publications

/-!
# Calls that may fail

A call to a store over a network can fail in two ways. It was never made, or it was made and its
answer got lost: the caller sees the same failure, and the store is not the same.

A program is written as if its calls were only answered by the store. `Prog.attempted` gives each of
them a fate, and `Attempt.perform` makes the call according to it. What is proved of the calls a
program makes, whatever it is answered, holds of it under all fates:

* `Attempt.perform_ok`: an answer that is a value is the answer of the store.
* `Attempt.perform_store`: the store is as it was, or as the call leaves it.
* `Prog.attempted_eq_call`: the next call of the program and what it goes on with.
-/

namespace SlogaBackend

/-- What becomes of a call: it is made, it is not made, or it is made and its answer is lost. -/
inductive Fate where
  | succeeds
  | fails
  | lost

/-- A call with its fate. -/
abbrev Attempt (C : Type) := Fate × C

namespace Attempt

variable {σ : Type*} {ε C : Type} {R : C → Type}

/-- A value, or a failure. -/
abbrev Answer (ε : Type) (R : C → Type) (attempt : Attempt C) : Type := Except ε (R attempt.2)

/-- Make a call according to its fate. -/
def perform (base : (c : C) → σ → σ × Except ε (R c)) (failure : C → ε) (_pid : Nat) :
    (attempt : Attempt C) → σ → σ × Answer ε R attempt
  | (.succeeds, c), s => base c s
  | (.fails, c), s => (s, .error (failure c))
  | (.lost, c), s => ((base c s).1, .error (failure c))

variable {base : (c : C) → σ → σ × Except ε (R c)} {failure : C → ε} {pid : Nat} {fate : Fate}
  {c : C} {s : σ}

theorem perform_ok {value : R c} (h : (perform base failure pid (fate, c) s).2 = .ok value) :
    fate = .succeeds ∧ (base c s).2 = .ok value := by
  cases fate with
  | succeeds => exact ⟨rfl, h⟩
  | _ => cases h

theorem perform_store (base : (c : C) → σ → σ × Except ε (R c)) (failure : C → ε) (pid : Nat)
    (attempt : Attempt C) (s : σ) : (perform base failure pid attempt s).1 = s ∨
      (perform base failure pid attempt s).1 = (base attempt.2 s).1 := by
  obtain ⟨fate, c⟩ := attempt
  cases fate with
  | fails => exact .inl rfl
  | _ => exact .inr rfl

theorem perform_keeps {P : σ → Prop} {attempt : Attempt C} (hs : P s)
    (hcl : P (base attempt.2 s).1) : P (perform base failure pid attempt s).1 := by
  rcases perform_store base failure pid attempt s with hsm | hmd
  · rw [hsm]
    exact hs
  · rw [hmd]
    exact hcl

end Attempt

namespace Prog

variable {ε C : Type} {R : C → Type} {α β : Type}

/-- A call that ends the program with its error. -/
def propagate (c : C) : Prog ε C (fun c => Except ε (R c)) (R c) :=
  .call c fun answer => .done answer

/-- Run a program, and make a call when it ends with an error; its answer is ignored. -/
def onError (cleanup : C) : Prog ε C (fun c => Except ε (R c)) α →
    Prog ε C (fun c => Except ε (R c)) α
  | done (.ok a) => done (.ok a)
  | done (.error e) => call cleanup fun _ => done (.error e)
  | call c rest => call c fun answer => (rest answer).onError cleanup

/-- Run a program, then another one whatever the result. -/
def andAfter : Prog ε C (fun c => Except ε (R c)) α → Prog ε C (fun c => Except ε (R c)) β →
    Prog ε C (fun c => Except ε (R c)) β
  | done _, next => next
  | call c rest, next => call c fun answer => (rest answer).andAfter next

/-- The calls of a program, each with its fate, from the call of a number on. What the program
returns is left out. -/
def attempted (fates : ℕ → Fate) : ℕ → Prog ε C (fun c => Except ε (R c)) α →
    Prog ε (Attempt C) (Attempt.Answer ε R) Unit
  | _, done result => done (result.map fun _ => ())
  | n, call c rest => call (fates n, c) fun answer => (rest answer).attempted fates (n + 1)

variable {fates : ℕ → Fate} {n : ℕ}

theorem attempted_eq_call {p : Prog ε C (fun c => Except ε (R c)) α} {attempt : Attempt C}
    {rest : Attempt.Answer ε R attempt → Prog ε (Attempt C) (Attempt.Answer ε R) Unit}
    (h : p.attempted fates n = call attempt rest) :
    ∃ rest', p = call attempt.2 rest' ∧ attempt.1 = fates n ∧
      rest = fun answer => (rest' answer).attempted fates (n + 1) := by
  cases p with
  | done result => cases h
  | call c rest' =>
    cases h
    exact ⟨rest', rfl, rfl, rfl⟩

end Prog

export Prog (propagate)

end SlogaBackend
