import Mathlib.Logic.Relation
import SlogaBackend.Lib.Table
import SlogaBackend.Lib.Runs

/-!
# Processes over a shared store

A process runs a program against a store that other processes change at the same
time. A program is a tree: it has ended with a result, or it makes one call and
goes on with the answer. The calls are the atomic steps. Between two of them
anything may happen, another process may take any number of steps, and this one
may stop for good.

## Rely and guarantee

All processes promise the same thing of a step, a relation `G` on stores, so what
one process may rely on between two of its calls is the reflexive transitive
closure of `G`. `Safe` says of a program, from a store on, that each of its calls
is a `G`-step wherever the others have taken the store in the meantime, and that
its result satisfies a postcondition there.

* `Safe.call` is the rule for one call. What the process knows before the call
  has to be stable, and the call is then judged in a store that has it.
* `Safe.bind` composes programs, and with it the specification of a subroutine is
  used without opening the subroutine.
* `System.safe_of_run` is the point of it: when every body is safe, every store of
  every interleaving satisfies the invariant, every step of it is a `G`-step, and
  every result satisfies its postcondition, at its return and ever after.

A crash removes a process between two of its calls. It needs no rule of its own:
safety never asks that a program goes on.
-/

namespace SlogaBackend

open Relation

/-- A program that makes calls `c : C` with answers in `A c`: it has ended, or it
makes a call and goes on with the answer. -/
inductive Prog (ε C : Type) (A : C → Type) (α : Type) where
  | done (result : Except ε α)
  | call (c : C) (rest : A c → Prog ε C A α)

namespace Prog

variable {ε C : Type} {A : C → Type} {α β : Type}

/-- Run a program, then another on its value; an error ends both. -/
def bind : Prog ε C A α → (α → Prog ε C A β) → Prog ε C A β
  | done (.ok a), k => k a
  | done (.error e), _ => done (.error e)
  | call c rest, k => call c fun answer => (rest answer).bind k

instance : Monad (Prog ε C A) where
  pure a := done (.ok a)
  bind := bind

theorem bind_assoc {γ : Type} (p : Prog ε C A α) (k : α → Prog ε C A β) (l : β → Prog ε C A γ) :
    (p.bind k).bind l = p.bind fun a => (k a).bind l := by
  induction p with
  | done result => cases result <;> rfl
  | call c rest ih => exact congrArg (call c) (funext ih)

theorem bind_pure (p : Prog ε C A α) : p.bind pure = p := by
  induction p with
  | done result => cases result <;> rfl
  | call c rest ih => exact congrArg (call c) (funext ih)

/-- A chain of checks makes no call. -/
def check (checks : Except ε α) : Prog ε C A α := done checks

/-- The program of one call. -/
def op (c : C) : Prog ε C A (A c) := call c fun answer => done (.ok answer)

/-- The result of a program that has ended. -/
def result? : Prog ε C A α → Option (Except ε α)
  | done result => some result
  | call _ _ => none

/-- The result of a program for some answers to its calls. -/
inductive Ends : Prog ε C A α → Except ε α → Prop
  | done (result : Except ε α) : Ends (done result) result
  | call {c : C} {rest : A c → Prog ε C A α} {result : Except ε α} (answer : A c)
      (h : Ends (rest answer) result) : Ends (call c rest) result

variable {k : α → Prog ε C A β}

theorem Ends.bind {p : Prog ε C A α} {a : α} {result : Except ε β} (hp : p.Ends (.ok a))
    (hk : (k a).Ends result) : (p.bind k).Ends result := by
  induction p with
  | done result =>
    cases hp
    exact hk
  | call c rest ih =>
    cases hp with
    | call answer h => exact .call answer (ih answer h)

theorem ends_bind {p : Prog ε C A α} {b : β} (h : (p.bind k).Ends (.ok b))
    : ∃ a, p.Ends (.ok a) ∧ (k a).Ends (.ok b) := by
  induction p with
  | done result =>
    cases result with
    | ok a => exact ⟨a, .done _, h⟩
    | error e => cases h
  | call c rest ih =>
    cases h with
    | call answer h =>
      obtain ⟨a, hrs, hk⟩ := ih answer h
      exact ⟨a, .call answer hrs, hk⟩

/-! ## Alone -/

section Alone

variable {σ : Type*} (perform : Nat → (c : C) → σ → σ × A c) (pid : Nat)

/-- Run a program to its end with nobody else around. -/
def alone : Prog ε C A α → σ → σ × Except ε α
  | done result, s => (s, result)
  | call c rest, s => (rest (perform pid c s).2).alone (perform pid c s).1

variable {perform pid} {k : α → Prog ε C A β}

theorem alone_bind_ok {p : Prog ε C A α} {s t : σ} {a : α} (h : p.alone perform pid s = (t, .ok a))
    : (p.bind k).alone perform pid s = (k a).alone perform pid t := by
  induction p generalizing s with
  | done result =>
    cases h
    rfl
  | call c rest ih => exact ih _ h

theorem alone_bind_error {p : Prog ε C A α} {s t : σ} {e : ε}
    (h : p.alone perform pid s = (t, .error e)) :
    (p.bind k).alone perform pid s = (t, .error e) := by
  induction p generalizing s with
  | done result =>
    cases h
    rfl
  | call c rest ih => exact ih _ h

end Alone

/-! ## Safe programs -/

section Safe

variable {σ : Type*} (perform : Nat → (c : C) → σ → σ × A c) (I : σ → Prop) (G : σ → σ → Prop)

/-- From the store `s` on, every call of the program is a `G`-step wherever
`G`-steps have taken the store before it, and its result satisfies `post`. -/
def Safe (pid : Nat) (post : σ → Except ε α → Prop) : Prog ε C A α → σ → Prop
  | done result, s => post s result
  | call c rest, s => ∀ s', ReflTransGen G s s' → I s' → G s' (perform pid c s').1 ∧
        Safe pid post (rest (perform pid c s').2) (perform pid c s').1

/-- What `G`-steps cannot make false. -/
def Stable (K : σ → Prop) : Prop := ∀ s s', I s → G s s' → K s → K s'

variable {perform I G} {pid : Nat} {post : σ → Except ε α → Prop} {K : σ → Prop} {s s' : σ}
  {p : Prog ε C A α}

theorem Stable.chain (hK : Stable I G K) (hkp : Stable I G I) (hcha : ReflTransGen G s s')
    (hI : I s) (hs : K s) : I s' ∧ K s' := by
  induction hcha with
  | refl => exact ⟨hI, hs⟩
  | tail _ hst ih => exact ⟨hkp _ _ ih.1 hst ih.1, hK _ _ ih.1 hst ih.2⟩

/-- **The rule for one call.** Stable knowledge `K` may be used where the call is
made. -/
theorem Safe.call (hkp : Stable I G I) (hK : Stable I G K) (hI : I s) (hs : K s) {c : C}
    {rest : A c → Prog ε C A α} (hcl : ∀ s', I s' → K s' → G s' (perform pid c s').1 ∧
      Safe perform I G pid post (rest (perform pid c s').2) (perform pid c s').1) :
    Safe perform I G pid post (Prog.call c rest) s :=
  fun s' hcha hI' => hcl s' hI' (hK.chain hkp hcha hI hs).2

theorem Safe.mono {post' : σ → Except ε α → Prop} (hps : ∀ s r, post s r → post' s r) :
    ∀ {s : σ}, Safe perform I G pid post p s → Safe perform I G pid post' p s := by
  induction p with
  | done result => exact fun h => hps _ _ h
  | call c rest ih =>
    intro s h s' hcha hI
    obtain ⟨hst, hrs⟩ := h s' hcha hI
    exact ⟨hst, ih _ hrs⟩

theorem Safe.of_step (hps : ∀ r, Stable I G fun s => post s r) (hI : I s) (hst : G s s')
    (hsf : Safe perform I G pid post p s) : Safe perform I G pid post p s' := by
  cases p with
  | done result => exact hps result s s' hI hst hsf
  | call c rest => exact fun t hcha => hsf t (hcha.head hst)

variable {k : α → Prog ε C A β} {P : C → Prop}

/-- **The rule for composition.** -/
theorem Safe.bind (hkp : Stable I G I) {post1 : σ → Except ε α → Prop}
    {post2 : σ → Except ε β → Prop}
    (hok : ∀ s a, I s → post1 s (.ok a) → Safe perform I G pid post2 (k a) s)
    (herr : ∀ s e, I s → post1 s (.error e) → post2 s (.error e)) :
    ∀ {s : σ}, I s → Safe perform I G pid post1 p s → Safe perform I G pid post2 (p.bind k) s := by
  induction p with
  | done result =>
    intro s hI hsf
    cases result with
    | ok a => exact hok s a hI hsf
    | error e => exact herr s e hI hsf
  | call c rest ih =>
    intro s _ hsf s' hcha hI'
    obtain ⟨hst, hrs⟩ := hsf s' hcha hI'
    exact ⟨hst, ih _ (hkp _ _ hI' hst hI') hrs⟩

/-- **The frame rule.** Stable knowledge is still there at the end. -/
theorem Safe.frame (hkp : Stable I G I) (hK : Stable I G K) :
    ∀ {s : σ}, I s → K s → Safe perform I G pid post p s →
      Safe perform I G pid (fun s r => post s r ∧ K s) p s := by
  induction p with
  | done result => exact fun _ hs hsf => ⟨hsf, hs⟩
  | call c rest ih =>
    intro s hI hs hsf s' hcha hI'
    obtain ⟨hst, hrs⟩ := hsf s' hcha hI'
    have hs' : K s' := (hK.chain hkp hcha hI hs).2
    exact ⟨hst, ih _ (hkp _ _ hI' hst hI') (hK _ _ hI' hst hs') hrs⟩

theorem Safe.op_bind (hkp : Stable I G I) (hK : Stable I G K) (hI : I s) (hs : K s) {c : C}
    {k : A c → Prog ε C A α} (hcl : ∀ s', I s' → K s' → G s' (perform pid c s').1 ∧
      Safe perform I G pid post (k (perform pid c s').2) (perform pid c s').1) :
    Safe perform I G pid post ((Prog.op c).bind k) s :=
  Safe.call hkp hK hI hs hcl

theorem Safe.check {checks : Except ε β} {k : β → Prog ε C A α}
    (hok : ∀ b, checks = .ok b → Safe perform I G pid post (k b) s)
    (herr : ∀ e, checks = .error e → post s (.error e)) :
    Safe perform I G pid post ((Prog.check checks).bind k) s := by
  cases hchec : checks with
  | ok b => exact hok b hchec
  | error e => exact herr e hchec

/-! ### Programs that make only harmless calls -/

/-- Every call of the program is one of `P`, whatever it is answered. -/
def Only (P : C → Prop) : Prog ε C A α → Prop
  | done _ => True
  | call c rest => P c ∧ ∀ answer, (rest answer).Only P

theorem Only.bind (hk : ∀ a, (k a).Only P) (hp : p.Only P) : (p.bind k).Only P := by
  induction p with
  | done result =>
    cases result with
    | ok a => exact hk a
    | error e => exact trivial
  | call c rest ih => exact ⟨hp.1, fun answer => ih answer (hp.2 answer)⟩

theorem Only.safe (hP : ∀ c s, P c → I s → G s (perform pid c s).1) (hp : p.Only P) (s : σ) :
    Safe perform I G pid (fun _ _ => True) p s := by
  induction p generalizing s with
  | done result => exact trivial
  | call c rest ih => exact fun s' _ hI => ⟨hP c s' hp.1 hI, ih _ (hp.2 _) _⟩

end Safe

end Prog

/-! ## Interleavings -/

/-- A process: what was asked of it, and the program it has left to run. A crashed
process has no program. -/
structure Process (ρ ε C : Type) (A : C → Type) (α : Type) where
  request : ρ
  prog : Option (Prog ε C A α)

def Process.next? {ρ ε C : Type} {A : C → Type} {α : Type} (process : Process ρ ε C A α) :
    Option C :=
  match process.prog with
  | some (.call c _) => some c
  | _ => none

def Process.ended {ρ ε C : Type} {A : C → Type} {α : Type} (process : Process ρ ε C A α) : Bool :=
  process.prog.any fun prog => prog.result?.isSome

/-- The store and the processes over it. -/
structure System (σ : Type*) (ρ ε C : Type) (A : C → Type) (α : Type) where
  store : σ
  processes : Table Nat (Process ρ ε C A α)

/-- What can happen next: a process starts, makes its next call, or crashes. -/
inductive Event (ρ : Type) where
  | start (pid : Nat) (request : ρ)
  | step (pid : Nat)
  | crash (pid : Nat)

namespace System

variable {σ : Type*} {ρ ε C : Type} {A : C → Type} {α : Type}

/-- A store nobody works on yet. -/
def idle (store : σ) : System σ ρ ε C A α := ⟨store, ∅⟩

/-- The result a process has returned. -/
def returned (sys : System σ ρ ε C A α) (pid : Nat) : Option (ρ × Except ε α) := do
  let process ← sys.processes.get pid
  let prog ← process.prog
  let result ← prog.result?
  return (process.request, result)

variable {sys sys' : System σ ρ ε C A α} {pid : Nat} {admits : System σ ρ ε C A α → Event ρ → Prop}
  {history h : List (System σ ρ ε C A α × Event ρ)} {procs : Table Nat (Process ρ ε C A α)}

theorem returned_eq_some {request : ρ} {result : Except ε α} :
    sys.returned pid = some (request, result) ↔
      sys.processes.get pid = some ⟨request, some (.done result)⟩ := by
  simp only [returned, Option.bind_eq_bind, bind_eq_some_iff, Option.pure_def,
    some.injEq, Prod.mk.injEq]
  constructor
  · rintro ⟨⟨request', prog?⟩, hg, prog, rfl, result', hres, rfl, rfl⟩
    cases prog with
    | done result'' =>
      cases hres
      exact hg
    | call c rest => cases hres
  · exact fun hg => ⟨_, hg, _, rfl, result, rfl, rfl, rfl⟩

/-- Every process has run its program to the end. -/
def AllEnded (sys : System σ ρ ε C A α) : Prop :=
  ∀ pid process, sys.processes.get pid = some process → ∃ result, process.prog = some (.done result)

def endedAll (sys : System σ ρ ε C A α) : Bool :=
  sys.processes.values.all fun process => process.prog.any fun prog => prog.result?.isSome

theorem allEnded_of_all (hall : sys.endedAll = true) : sys.AllEnded := by
  intro pid process hg
  have hproc := all_eq_true.mp hall process (mem_values.mpr ⟨pid, hg⟩)
  obtain ⟨prog, hpr, hend⟩ := (Option.any_eq_true _ _).mp hproc
  cases prog with
  | done result => exact ⟨result, hpr⟩
  | call c rest => exact absurd hend false_ne_true

variable (perform : Nat → (c : C) → σ → σ × A c) (body : ρ → Prog ε C A α)

/-- One event. A process id is used once. -/
def exec (sys : System σ ρ ε C A α) : Event ρ → System σ ρ ε C A α × Unit
  | .start pid request =>
    match sys.processes.get pid with
    | some _ => (sys, ())
    | none =>
      ({ sys with processes := sys.processes.insert pid ⟨request, some (body request)⟩ }, ())
  | .step pid =>
    match sys.processes.get pid with
    | some ⟨request, some (.call c rest)⟩ =>
      ({ store := (perform pid c sys.store).1
         processes := sys.processes.insert pid
           ⟨request, some (rest (perform pid c sys.store).2)⟩ }, ())
    | _ => (sys, ())
  | .crash pid =>
    match sys.processes.get pid with
    | some ⟨request, some (.call _ _)⟩ =>
      ({ sys with processes := sys.processes.insert pid ⟨request, none⟩ }, ())
    | _ => (sys, ())

/-- What one event does: nothing, or it starts a process, makes the next call of one, or
crashes one. -/
theorem exec_cases (sys : System σ ρ ε C A α) (event : Event ρ) :
    (exec perform body sys event).1 = sys ∨
      (∃ pid request, event = .start pid request ∧ sys.processes.get pid = none ∧
        (exec perform body sys event).1 =
          ⟨sys.store, sys.processes.insert pid ⟨request, some (body request)⟩⟩) ∨
      (∃ pid request c rest, event = .step pid ∧
        sys.processes.get pid = some ⟨request, some (.call c rest)⟩ ∧
        (exec perform body sys event).1 = ⟨(perform pid c sys.store).1, sys.processes.insert pid
            ⟨request, some (rest (perform pid c sys.store).2)⟩⟩) ∨
      ∃ pid request c rest, event = .crash pid ∧
        sys.processes.get pid = some ⟨request, some (.call c rest)⟩ ∧
        (exec perform body sys event).1 =
          ⟨sys.store, sys.processes.insert pid ⟨request, none⟩⟩ := by
  cases event with
  | start pid request =>
    simp only [exec]
    split
    · exact .inl rfl
    · exact .inr (.inl ⟨pid, request, rfl, ‹_›, rfl⟩)
  | step pid =>
    simp only [exec]
    split
    · exact .inr (.inr (.inl ⟨pid, _, _, _, rfl, ‹_›, rfl⟩))
    · exact .inl rfl
  | crash pid =>
    simp only [exec]
    split
    · exact .inr (.inr (.inr ⟨pid, _, _, _, rfl, ‹_›, rfl⟩))
    · exact .inl rfl

/-- **The invariant rule.** What a start, a call and a crash keep, a run keeps. -/
theorem invariant {perform : Nat → (c : C) → σ → σ × A c} {body : ρ → Prog ε C A α}
    {P : System σ ρ ε C A α → Prop} (hstar : ∀ sys pid request, admits sys (.start pid request) →
      sys.processes.get pid = none → P sys →
        P ⟨sys.store, sys.processes.insert pid ⟨request, some (body request)⟩⟩)
    (hcl : ∀ sys pid request c rest, admits sys (.step pid) →
      sys.processes.get pid = some ⟨request, some (.call c rest)⟩ → P sys →
        P ⟨(perform pid c sys.store).1, sys.processes.insert pid
          ⟨request, some (rest (perform pid c sys.store).2)⟩⟩)
    (hcras : ∀ sys pid request c rest, admits sys (.crash pid) →
      sys.processes.get pid = some ⟨request, some (.call c rest)⟩ → P sys →
        P ⟨sys.store, sys.processes.insert pid ⟨request, none⟩⟩)
    (hrun : Run (exec perform body) admits sys history sys') (hsys : P sys) : P sys' := by
  refine hrun.invariant (fun sys event hadm hP => ?_) hsys
  obtain hsm | ⟨pid, request, rfl, hfr, hnx⟩ | ⟨pid, request, c, rest, rfl, hg, hnx⟩ |
    ⟨pid, request, c, rest, rfl, hg, hnx⟩ := exec_cases perform body sys event
  · rw [hsm]
    exact hP
  · rw [hnx]
    exact hstar sys pid request hadm hfr hP
  · rw [hnx]
    exact hcl sys pid request c rest hadm hg hP
  · rw [hnx]
    exact hcras sys pid request c rest hadm hg hP

/-- The call that is made in a step. -/
def calls (sys : System σ ρ ε C A α) : Event ρ → Option C
  | .step pid => (sys.processes.get pid).bind Process.next?
  | _ => none

theorem calls_step {request : ρ} {c : C} {rest : A c → Prog ε C A α}
    (hg : sys.processes.get pid = some ⟨request, some (.call c rest)⟩) :
    sys.calls (.step pid) = some c := by
  show (sys.processes.get pid).bind Process.next? = some c
  rw [hg]
  rfl

theorem calls_eq_some {event : Event ρ} {c : C} (hcal : sys.calls event = some c) :
    ∃ pid request rest, event = .step pid ∧
      sys.processes.get pid = some ⟨request, some (.call c rest)⟩ := by
  cases event with
  | step pid =>
    obtain ⟨⟨request, prog⟩, hg, hnx⟩ := bind_eq_some_iff.mp hcal
    cases prog with
    | none => cases hnx
    | some prog =>
      cases prog with
      | done result => cases hnx
      | call c' rest =>
        cases hnx
        exact ⟨pid, request, rest, rfl, hg⟩
  | _ => cases hcal

/-- **The invariant rule with the history.** What a start, a call, a crash and an event without
effect keep as the history grows by them, a run keeps. -/
theorem invariant_history {perform : Nat → (c : C) → σ → σ × A c} {body : ρ → Prog ε C A α}
    {first : System σ ρ ε C A α}
    {P : List (System σ ρ ε C A α × Event ρ) → System σ ρ ε C A α → Prop}
    (hqui : ∀ history sys event, Run (exec perform body) admits first history sys →
      sys.calls event = none → P history sys → P (history ++ [(sys, event)]) sys)
    (hstar : ∀ history sys pid request, Run (exec perform body) admits first history sys →
      admits sys (.start pid request) → sys.processes.get pid = none → P history sys →
        P (history ++ [(sys, .start pid request)])
          ⟨sys.store, sys.processes.insert pid ⟨request, some (body request)⟩⟩)
    (hcl : ∀ history sys pid request c rest, Run (exec perform body) admits first history sys →
      admits sys (.step pid) → sys.processes.get pid = some ⟨request, some (.call c rest)⟩ →
        P history sys → P (history ++ [(sys, .step pid)])
          ⟨(perform pid c sys.store).1, sys.processes.insert pid
            ⟨request, some (rest (perform pid c sys.store).2)⟩⟩)
    (hcras : ∀ history sys pid request c rest, Run (exec perform body) admits first history sys →
      admits sys (.crash pid) → sys.processes.get pid = some ⟨request, some (.call c rest)⟩ →
        P history sys → P (history ++ [(sys, .crash pid)])
          ⟨sys.store, sys.processes.insert pid ⟨request, none⟩⟩)
    (hrun : Run (exec perform body) admits first history sys) (hfst : P [] first) :
    P history sys := by
  refine hrun.invariant_history hfst fun history sys event hbef hadm hP => ?_
  cases event with
  | start pid request =>
    simp only [exec]
    split
    · exact hqui history sys _ hbef rfl hP
    · exact hstar history sys pid request hbef hadm ‹_› hP
  | step pid =>
    cases hcal : sys.calls (.step pid) with
    | some c =>
      obtain ⟨pid', request, rest, heq, hg⟩ := calls_eq_some hcal
      obtain rfl : pid = pid' := Event.step.inj heq
      simp only [exec, hg]
      exact hcl history sys pid request c rest hbef hadm hg hP
    | none =>
      simp only [exec]
      split
      · rename_i hg
        rw [calls_step hg] at hcal
        cases hcal
      · exact hqui history sys _ hbef hcal hP
  | crash pid =>
    simp only [exec]
    split
    · exact hcras history sys pid _ _ _ hbef hadm ‹_› hP
    · exact hqui history sys _ hbef rfl hP

/-- **What a step does to the store**: its call, if it makes one. -/
theorem store_exec (sys : System σ ρ ε C A α) (event : Event ρ) :
    (sys.calls event = none ∧ (exec perform body sys event).1.store = sys.store) ∨
      ∃ pid c, event = .step pid ∧ sys.calls event = some c ∧
        (exec perform body sys event).1.store = (perform pid c sys.store).1 := by
  cases event with
  | step pid =>
    cases hcal : sys.calls (.step pid) with
    | some c =>
      obtain ⟨pid', request, rest, heq, hg⟩ := calls_eq_some hcal
      obtain rfl : pid = pid' := Event.step.inj heq
      refine .inr ⟨pid, c, rfl, rfl, ?_⟩
      simp only [exec, hg]
    | none =>
      refine .inl ⟨rfl, ?_⟩
      simp only [exec]
      split
      · rename_i hg
        rw [calls_step hg] at hcal
        cases hcal
      · rfl
  | _ =>
    refine .inl ⟨rfl, ?_⟩
    simp only [exec]
    split <;> rfl

/-- Only admissible requests are made. -/
def Admits (admissible : ρ → Prop) (_ : System σ ρ ε C A α) : Event ρ → Prop
  | .start _ request => admissible request
  | _ => True

theorem admitsAll_of_starts {exec : System σ ρ ε C A α → Event ρ → System σ ρ ε C A α × Unit}
    {admissible : ρ → Prop} {events : List (Event ρ)}
    (h : ∀ pid request, Event.start pid request ∈ events → admissible request) :
    AdmitsAll exec (Admits admissible) sys events := by
  induction events generalizing sys with
  | nil => trivial
  | cons event events ih =>
    refine ⟨?_, ih fun pid request hmem => h pid request (mem_cons_of_mem _ hmem)⟩
    cases event with
    | start pid request => exact h pid request mem_cons_self
    | step | crash => trivial

variable {perform body} {I : σ → Prop} {G : σ → σ → Prop} {admissible : ρ → Prop}
  {post : Nat → ρ → σ → Except ε α → Prop}

/-- Every process is in a safe place. -/
structure AllSafe (perform : Nat → (c : C) → σ → σ × A c) (I : σ → Prop) (G : σ → σ → Prop)
    (post : Nat → ρ → σ → Except ε α → Prop) (sys : System σ ρ ε C A α) : Prop where
  store : I sys.store
  process : ∀ pid request prog, sys.processes.get pid = some ⟨request, some prog⟩ →
    prog.Safe perform I G pid (post pid request) sys.store

theorem allSafe_idle {s : σ} (hI : I s) : AllSafe perform I G post (idle s : System σ ρ ε C A α) :=
  ⟨hI, fun pid request prog hg => absurd hg (by simp [idle])⟩

theorem get_insert_cases {pid' : Nat} {process process' : Process ρ ε C A α}
    (h : (procs.insert pid process).get pid' = some process') :
    (pid' = pid ∧ process' = process) ∨ procs.get pid' = some process' := by
  rw [get_insert] at h
  split at h
  · rename_i heq
    exact .inl ⟨heq, (some.inj h).symm⟩
  · exact .inr h

theorem exists_insert {process : Process ρ ε C A α} {P : Process ρ ε C A α → Prop}
    (hfnd : ∃ pid' found, procs.get pid' = some found ∧ P found)
    (hsl : ∀ old, procs.get pid = some old → P old → P process) :
    ∃ pid' found, (procs.insert pid process).get pid' = some found ∧ P found := by
  obtain ⟨pid', found, hg, hP⟩ := hfnd
  by_cases hpid : pid' = pid
  · subst hpid
    exact ⟨pid', process, by rw [get_insert_self], hsl found hg hP⟩
  · exact ⟨pid', found, by rw [get_insert, if_neg hpid]; exact hg, hP⟩

section

variable (hkp : Prog.Stable I G I)
  (hps : ∀ pid request r, Prog.Stable I G fun s => post pid request s r)
  (hbd : ∀ pid request s, admissible request → I s → (body request).Safe perform I G pid (post pid request) s)
include hkp hps hbd

/-- **One event.** It is a `G`-step or leaves the store alone, and every process is in
a safe place after it. -/
theorem allSafe_exec {event : Event ρ}
    (hadm : Admits admissible sys event) (hsf : AllSafe perform I G post sys) :
    AllSafe perform I G post (exec perform body sys event).1 ∧
      ((exec perform body sys event).1.store = sys.store ∨
        G sys.store (exec perform body sys event).1.store) := by
  obtain hsm | ⟨pid, request, rfl, -, hnx⟩ | ⟨pid, request, c, rest, rfl, hg, hnx⟩ |
    ⟨pid, request, c, rest, rfl, -, hnx⟩ := exec_cases perform body sys event
  · rw [hsm]
    exact ⟨hsf, .inl rfl⟩
  · rw [hnx]
    refine ⟨⟨hsf.store, fun pid' request' prog hg => ?_⟩, .inl rfl⟩
    rcases get_insert_cases hg with ⟨rfl, heq⟩ | hold
    · injection heq with hreq hpr
      subst hreq
      injection hpr with hpr
      subst hpr
      exact hbd pid' request' sys.store hadm hsf.store
    · exact hsf.process pid' request' prog hold
  · rw [hnx]
    obtain ⟨hst, hrs⟩ := hsf.process pid request _ hg sys.store .refl hsf.store
    refine ⟨⟨hkp _ _ hsf.store hst hsf.store, fun pid' request' prog hg' => ?_⟩, .inr hst⟩
    rcases get_insert_cases hg' with ⟨rfl, heq⟩ | hold
    · injection heq with hreq hpr
      subst hreq
      injection hpr with hpr
      subst hpr
      exact hrs
    · exact (hsf.process pid' request' prog hold).of_step (hps pid' request') hsf.store hst
  · rw [hnx]
    refine ⟨⟨hsf.store, fun pid' request' prog hg => ?_⟩, .inl rfl⟩
    rcases get_insert_cases hg with ⟨rfl, heq⟩ | hold
    · injection heq with _ hpr
      cases hpr
    · exact hsf.process pid' request' prog hold

/-- **Whole interleavings.** -/
theorem safe_of_run {s : σ} (hI : I s)
    (hrun : Run (exec perform body) (Admits admissible) (idle s) h sys) :
    AllSafe perform I G post sys :=
  hrun.invariant (P := AllSafe perform I G post)
    (fun _ _ hadm hsf => (allSafe_exec hkp hps hbd hadm hsf).1) (allSafe_idle hI)

end

theorem store_of_run {P : σ → Prop} (hperf : ∀ pid c s, P s → P (perform pid c s).1) {s : σ}
    (hs : P s) (hrun : Run (exec perform body) admits (idle s) h sys) : P sys.store := by
  refine invariant (P := fun sys => P sys.store) ?_ ?_ ?_ hrun hs
  · exact fun _ _ _ _ _ hP => hP
  · exact fun sys pid _ c _ _ _ hP => hperf pid c sys.store hP
  · exact fun _ _ _ _ _ _ _ hP => hP

theorem returned_of_run (hrun : Run (exec perform body) admits sys h sys') {result : ρ × Except ε α}
    (hret : sys.returned pid = some result) : sys'.returned pid = some result := by
  -- the process of another id is untouched, and that of this id has no call to make
  have hoth : ∀ {sys : System σ ρ ε C A α} {pid' : Nat} (store : σ) (process : Process ρ ε C A α),
      sys.returned pid' = none → sys.returned pid = some result →
        returned ⟨store, sys.processes.insert pid' process⟩ pid = some result := by
    intro sys pid' store process hno hP
    have hne : pid ≠ pid' := by
      rintro rfl
      cases hno.symm.trans hP
    rw [← hP]
    unfold returned
    rw [get_insert, if_neg hne]
  refine invariant (P := fun sys => sys.returned pid = some result) ?_ ?_ ?_ hrun hret
  · exact fun _ _ _ _ hfr => hoth _ _ (by unfold returned; rw [hfr]; rfl)
  · exact fun _ _ _ _ _ _ hg => hoth _ _ (by unfold returned; rw [hg]; rfl)
  · exact fun _ _ _ _ _ _ hg => hoth _ _ (by unfold returned; rw [hg]; rfl)

theorem AllSafe.returned (hsf : AllSafe perform I G post sys) {request : ρ} {result : Except ε α}
    (h : sys.returned pid = some (request, result)) : post pid request sys.store result := by
  exact hsf.process pid request _ (returned_eq_some.mp h)

end System

export System (idle get_insert_cases exec_cases)

export Prog (op check Stable Only.bind Safe.mono Safe.bind alone_bind_ok)

end SlogaBackend
