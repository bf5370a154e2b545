import SlogaBackend.Lib.Processes

/-!
# Processes that keep a discipline

A process knows only what its own calls have answered. `Discipline` makes that
knowledge explicit: a local state, what a call and its answer add to it, and which
calls the process may make in it. `Obeys` says that a program makes only such calls,
whatever it is answered.

This separates two arguments that are usually entangled. That a program obeys is a
statement about one program alone, proved along its tree with the rules below and
without a word about other processes. That the store keeps an invariant is a statement
about single calls, made by anyone whose local state allows them, proved without a word
about programs. `System.Lawful.run` puts the two together: in every interleaving of
obeying programs the invariant holds, and every call is one its process may make.

## Conditions on a run

Some invariants hold only of runs in which certain calls come at certain moments.
`System.StepAdmits` restricts the steps of a run by a condition on the process, the call
it is about to make and the store it makes it in.
-/

namespace SlogaBackend

/-- What a process learns, what it may do, and what it may be answered. -/
structure Discipline (C : Type) (A : C → Type) (L : Type*) where
  init : L
  note : L → (c : C) → A c → L
  allowed : L → C → Prop
  possible : (c : C) → A c → Prop

namespace Prog

variable {ε C : Type} {A : C → Type} {α β : Type} {L : Type*}

/-- Run a program and hand its error over as a value. -/
def attempt : Prog ε C A α → Prog ε C A (Except ε α)
  | done result => done (.ok result)
  | call c rest => call c fun answer => (rest answer).attempt

variable {p : Prog ε C A α}

theorem Ends.attempt {result : Except ε α} (h : p.Ends result) : p.attempt.Ends (.ok result) := by
  induction h with
  | done result => exact .done _
  | call answer _ ih => exact .call answer ih

theorem Only.attempt {P : C → Prop} (hp : p.Only P) : p.attempt.Only P := by
  induction p with
  | done result => exact trivial
  | call c rest ih => exact ⟨hp.1, fun answer => ih answer (hp.2 answer)⟩

theorem Safe.attempt {σ : Type*} {perform : Nat → (c : C) → σ → σ × A c} {I : σ → Prop}
    {G : σ → σ → Prop} {pid : Nat} {post : σ → Except ε (Except ε α) → Prop} :
    ∀ {s : σ}, Safe perform I G pid (fun s r => post s (.ok r)) p s →
      Safe perform I G pid post p.attempt s := by
  induction p with
  | done result => exact fun h => h
  | call c rest ih =>
    intro s h s' hcha hI
    obtain ⟨hst, hrs⟩ := h s' hcha hI
    exact ⟨hst, ih _ hrs⟩

/-- From the local state on, the program makes only allowed calls, and ends in `post`. -/
def Obeys (D : Discipline C A L) (post : L → Except ε α → Prop) : L → Prog ε C A α → Prop
  | l, done result => post l result
  | l, call c rest => D.allowed l c ∧
      ∀ answer, D.possible c answer → Obeys D post (D.note l c answer) (rest answer)

variable {D : Discipline C A L} {post post' : L → Except ε α → Prop}

theorem Obeys.mono (hps : ∀ l r, post l r → post' l r) :
    ∀ {l : L}, Obeys D post l p → Obeys D post' l p := by
  induction p with
  | done result => exact fun h => hps _ _ h
  | call c rest ih => exact fun h => ⟨h.1, fun answer hans => ih answer (h.2 answer hans)⟩

/-- **The rule for composition.** -/
theorem Obeys.bind {post2 : L → Except ε β → Prop} {k : α → Prog ε C A β} : ∀ {l : L},
      Obeys D (fun l r => match r with
        | .ok a => Obeys D post2 l (k a)
        | .error e => post2 l (.error e)) l p →
      Obeys D post2 l (p.bind k) := by
  induction p with
  | done result =>
    intro l h
    cases result with
    | ok a | error e => exact h
  | call c rest ih => exact fun h => ⟨h.1, fun answer hans => ih answer (h.2 answer hans)⟩

theorem Obeys.attempt {post : L → Except ε (Except ε α) → Prop} :
    ∀ {l : L}, Obeys D (fun l r => post l (.ok r)) l p → Obeys D post l p.attempt := by
  induction p with
  | done result => exact fun h => h
  | call c rest ih => exact fun h => ⟨h.1, fun answer hans => ih answer (h.2 answer hans)⟩

/-! ### Frames

A program that leaves a part of the local state alone is described by that part, as a
view of the local state. -/

/-- From everywhere, the program obeys and leaves the view of the local state alone. -/
def Frames {V : Type*} (D : Discipline C A L) (view : L → V) (p : Prog ε C A α) : Prop :=
  ∀ l, p.Obeys D (fun l' _ => view l' = view l) l

section Frames

variable {V V' : Type*} {view : L → V}

theorem Frames.done (result : Except ε α) : Frames D view (done result : Prog ε C A α) :=
  fun _ => rfl

theorem Frames.call {c : C} {rest : A c → Prog ε C A α} (hall : ∀ l, D.allowed l c)
    (hnt : ∀ l answer, view (D.note l c answer) = view l)
    (hrs : ∀ answer, Frames D view (rest answer)) : Frames D view (Prog.call c rest) :=
  fun l => ⟨hall l, fun answer _ => (hrs answer _).mono fun _ _ h => h.trans (hnt l answer)⟩

variable {p : Prog ε C A α} {k : α → Prog ε C A β}

theorem Frames.obeys_bind {post : L → Except ε β → Prop} {l : L} (hp : Frames D view p)
    (hk : ∀ l' a, view l' = view l → Obeys D post l' (k a))
    (herr : ∀ l' e, view l' = view l → post l' (.error e)) : Obeys D post l (p.bind k) := by
  refine Obeys.bind ((hp l).mono fun l' r h => ?_)
  cases r with
  | ok a => exact hk l' a h
  | error e => exact herr l' e h

theorem Frames.bind (hp : Frames D view p) (hk : ∀ a, Frames D view (k a)) :
    Frames D view (p.bind k) := fun _ =>
  hp.obeys_bind (fun l' a h => (hk a l').mono fun _ _ h' => h'.trans h) fun _ _ h => h

theorem Frames.attempt (hp : Frames D view p) : Frames D view p.attempt :=
  fun l => Obeys.attempt (hp l)

theorem Frames.coarsen {view' : L → V'} (hcoar : ∀ l l', view l' = view l → view' l' = view' l)
    (hp : Frames D view p) : Frames D view' p :=
  fun l => (hp l).mono fun l' _ h => hcoar l l' h

end Frames

end Prog

/-! ## Disciplined systems -/

namespace System

variable {W : Type*} {ρ ε C : Type} {A : C → Type} {α : Type} {L : Type*}

/-- The call a process is about to make. -/
def nextCall (sys : System W ρ ε C A α) (pid : Nat) : Option C := do
  let process ← sys.processes.get pid
  match process.prog with
  | some (.call c _) => some c
  | _ => none

/-- Only admissible requests are made, and every step meets its condition. -/
def StepAdmits (admissible : ρ → Prop) (permits : Nat → C → W → Prop)
    (sys : System W ρ ε C A α) : Event ρ → Prop
  | .start _ request => admissible request
  | .step pid => ∀ c, sys.nextCall pid = some c → permits pid c sys.store
  | .crash _ => True

instance StepAdmits.decidable (admissible : ρ → Prop) (permits : Nat → C → W → Prop)
    [DecidablePred admissible] [∀ pid c w, Decidable (permits pid c w)]
    (sys : System W ρ ε C A α) : ∀ event, Decidable (StepAdmits admissible permits sys event)
  | .start _ request => inferInstanceAs (Decidable (admissible request))
  | .step pid => decidable_of_iff (∀ c ∈ sys.nextCall pid, permits pid c sys.store) (by simp [StepAdmits])
  | .crash _ => isTrue trivial

variable (D : Discipline C A L) (locals : W → Nat → L)

/-- The invariant holds, every process goes on obeying from what it knows, and a process
that has not started knows nothing. -/
structure Lawful (post : ρ → L → Except ε α → Prop) (Inv : W → Prop)
    (sys : System W ρ ε C A α) : Prop where
  store : Inv sys.store
  process : ∀ pid request prog, sys.processes.get pid = some ⟨request, some prog⟩ →
    prog.Obeys D (post request) (locals sys.store pid)
  fresh : ∀ pid, sys.processes.get pid = none → locals sys.store pid = D.init

variable {D locals} {perform : Nat → (c : C) → W → W × A c} {body : ρ → Prog ε C A α}
  {admissible : ρ → Prop} {permits : Nat → C → W → Prop} {post : ρ → L → Except ε α → Prop}
  {Inv : W → Prop}

theorem lawful_idle {w : W} (hinv : Inv w) (hfr : ∀ pid, locals w pid = D.init) :
    Lawful D locals post Inv (idle w : System W ρ ε C A α) :=
  ⟨hinv, fun pid request prog hg => absurd hg (by simp [idle]), fun pid _ => hfr pid⟩

theorem Lawful.allowed {sys : System W ρ ε C A α} (h : Lawful D locals post Inv sys) {pid : Nat}
    {c : C} (hnx : sys.nextCall pid = some c) : D.allowed (locals sys.store pid) c := by
  simp only [nextCall, Option.bind_eq_bind, bind_eq_some_iff] at hnx
  obtain ⟨⟨request, prog⟩, hg, hcl⟩ := hnx
  cases prog with
  | none => cases hcl
  | some prog =>
    cases prog with
    | done result => cases hcl
    | call c' rest =>
      cases hcl
      exact (h.process pid request _ hg).1

section

variable
  (hown : ∀ pid c w, locals (perform pid c w).1 pid = D.note (locals w pid) c (perform pid c w).2)
  (hoth : ∀ pid c w q, q ≠ pid → locals (perform pid c w).1 q = locals w q)
  (hbd : ∀ request, admissible request → (body request).Obeys D (post request) D.init)
  (hst : ∀ pid c w, Inv w → permits pid c w → D.allowed (locals w pid) c → Inv (perform pid c w).1 ∧ D.possible c (perform pid c w).2)
include hown hoth hbd hst

/-- **One event.** -/
theorem lawful_exec
    (sys : System W ρ ε C A α) (event : Event ρ) (hadm : StepAdmits admissible permits sys event)
    (h : Lawful D locals post Inv sys) :
    Lawful D locals post Inv (exec perform body sys event).1 := by
  cases event with
  | start pid request =>
    simp only [exec]
    split
    · exact h
    · rename_i hno
      refine ⟨h.store, fun pid' request' prog hg => ?_, fun pid' hg => ?_⟩
      · rcases get_insert_cases hg with ⟨rfl, heq⟩ | hold
        · injection heq with hreq hpr
          subst hreq
          injection hpr with hpr
          subst hpr
          rw [h.fresh pid' hno]
          exact hbd request' hadm
        · exact h.process pid' request' prog hold
      · rw [get_insert] at hg
        split at hg
        · cases hg
        · exact h.fresh pid' hg
  | step pid =>
    simp only [exec]
    split
    · rename_i request c _ hg
      have hnx : sys.nextCall pid = some c := by
        simp only [nextCall, hg]
        rfl
      obtain ⟨hall, hrs⟩ := h.process pid request _ hg
      obtain ⟨hinv, hpos⟩ := hst pid c sys.store h.store (hadm c hnx) hall
      refine ⟨hinv, fun pid' request' prog hg' => ?_, fun pid' hg' => ?_⟩
      · rw [get_insert] at hg'
        split at hg'
        · rename_i hpid
          subst hpid
          injection hg' with heq
          injection heq with hreq hpr
          subst hreq
          injection hpr with hpr
          subst hpr
          rw [hown]
          exact hrs _ hpos
        · rename_i hpid
          rw [hoth pid c sys.store pid' hpid]
          exact h.process pid' request' prog hg'
      · rw [get_insert] at hg'
        split at hg'
        · cases hg'
        · rename_i hpid
          rw [hoth pid c sys.store pid' hpid]
          exact h.fresh pid' hg'
    · exact h
  | crash pid =>
    simp only [exec]
    split
    · refine ⟨h.store, fun pid' request' prog hg => ?_, fun pid' hg => ?_⟩
      · rcases get_insert_cases hg with ⟨rfl, heq⟩ | hold
        · injection heq with _ hpr
          cases hpr
        · exact h.process pid' request' prog hold
      · rw [get_insert] at hg
        split at hg
        · cases hg
        · exact h.fresh pid' hg
    · exact h

/-- **Whole interleavings.** -/
theorem Lawful.run {sys sys' : System W ρ ε C A α} (hsys : Lawful D locals post Inv sys)
    {h : List (System W ρ ε C A α × Event ρ)}
    (hrun : Run (exec perform body) (StepAdmits admissible permits) sys h sys') :
    Lawful D locals post Inv sys' :=
  hrun.invariant (P := Lawful D locals post Inv) (lawful_exec hown hoth hbd hst) hsys

end

end System

export Prog (Obeys.bind Obeys.attempt Obeys.mono Frames.done Frames.call Frames.bind)

end SlogaBackend
