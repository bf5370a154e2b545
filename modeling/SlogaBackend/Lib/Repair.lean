import SlogaBackend.Lib.Processes

/-!
# Write, then verify

Two documents that belong together are written without a transaction. A process that
writes one of them may leave the other stale, and then looks again and repairs what it
finds. No single step keeps the two in agreement; what holds is that wherever they
disagree somebody still has to look.

`Repair` says what agreement is, and which steps of others leave the looking process's
knowledge intact. A program `Mends` from a store when, disturbed by such steps only, it
does not return before the store is good. A program is `Honest` when each of its calls is
such a step, or leaves itself with a program that mends.

* `System.tended_of_run` is the rule: in every interleaving of honest programs the store is
  good, or some process mends it (a process that crashed or failed counts, for it has not
  finished).
* `System.Tended.good` is the point: once every process has returned without an error the
  store is good.
-/

namespace SlogaBackend

/-- What is to be kept, and which steps do not disturb a process that is checking it. -/
structure Repair (σ : Type*) where
  Good : σ → Prop
  Quiet : σ → σ → Prop
  refl : ∀ s, Quiet s s
  trans : ∀ {s t u}, Quiet s t → Quiet t u → Quiet s u
  good : ∀ {s t}, Quiet s t → Good s → Good t

variable {σ : Type*} {ε C : Type} {A : C → Type} {α β : Type}

namespace Prog

variable (R : Repair σ) (perform : Nat → (c : C) → σ → σ × A c) (pid : Nat)

/-- Disturbed only by quiet steps, the program does not return before the store is good. -/
def Mends : Prog ε C A α → σ → Prop
  | done (.ok _), s => R.Good s
  | done (.error _), _ => True
  | call c rest, s => ∀ s', R.Quiet s s' → Mends (rest (perform pid c s').2) (perform pid c s').1

/-- Every call of the program is quiet, or leaves it with a program that mends. -/
def Honest : Prog ε C A α → Prop
  | done _ => True
  | call c rest => ∀ s, (R.Quiet s (perform pid c s).1 ∨
        Mends R perform pid (rest (perform pid c s).2) (perform pid c s).1) ∧
      Honest (rest (perform pid c s).2)

variable {R perform pid} {p : Prog ε C A α} {k : α → Prog ε C A β}

theorem Mends.of_quiet {s s' : σ} (hmen : p.Mends R perform pid s) (hqui : R.Quiet s s') :
    p.Mends R perform pid s' := by
  cases p with
  | done result =>
    cases result with
    | ok a => exact R.good hqui hmen
    | error e => exact trivial
  | call c rest => exact fun t ht => hmen t (R.trans hqui ht)

/-- **The rule for composition.** -/
theorem Mends.bind (hk : ∀ a s, (k a).Mends R perform pid s) (p : Prog ε C A α) :
    ∀ s, (p.bind k).Mends R perform pid s := by
  induction p with
  | done result =>
    intro s
    cases result with
    | ok a => exact hk a s
    | error e => exact trivial
  | call c rest ih => exact fun s s' _ => ih _ _

/-- Shaping the value at the end. -/
theorem Mends.bind_done (hk : ∀ a, ∃ b, k a = done (.ok b)) :
    ∀ {s : σ}, p.Mends R perform pid s → (p.bind k).Mends R perform pid s := by
  induction p with
  | done result =>
    intro s h
    cases result with
    | ok a =>
      obtain ⟨b, hb⟩ := hk a
      show (k a).Mends R perform pid s
      rw [hb]
      exact h
    | error e => exact trivial
  | call c rest ih => exact fun h s' hqui => ih _ (h s' hqui)

theorem Honest.bind_done (hk : ∀ a, ∃ b, k a = done (.ok b)) (h : p.Honest R perform pid) :
    (p.bind k).Honest R perform pid := by
  induction p with
  | done result =>
    cases result with
    | ok a =>
      obtain ⟨b, hb⟩ := hk a
      show (k a).Honest R perform pid
      rw [hb]
      exact trivial
    | error e => exact trivial
  | call c rest ih =>
    intro s
    refine ⟨?_, ih _ (h s).2⟩
    exact (h s).1.imp_right fun hmen => Mends.bind_done hk hmen

theorem Honest.bind_of_quiet {P : C → Prop} (hqui : ∀ c s, P c → R.Quiet s (perform pid c s).1)
    (hk : ∀ a, (k a).Honest R perform pid) (hp : p.Only P) : (p.bind k).Honest R perform pid := by
  induction p with
  | done result =>
    cases result with
    | ok a => exact hk a
    | error e => exact trivial
  | call c rest ih => exact fun s => ⟨.inl (hqui c s hp.1), ih _ (hp.2 _)⟩

end Prog

/-! ## Interleavings -/

namespace System

variable {ρ : Type} {R : Repair σ} {perform : Nat → (c : C) → σ → σ × A c} {body : ρ → Prog ε C A α}

/-- Every process has returned, and none with an error. -/
def Finished (sys : System σ ρ ε C A α) : Prop :=
  ∀ pid process, sys.processes.get pid = some process → ∃ a, process.prog = some (.done (.ok a))

/-- Whether a process has returned a value. -/
def succeeded (process : Process ρ ε C A α) : Bool :=
  match process.prog with
  | some (.done (.ok _)) => true
  | _ => false

variable {sys : System σ ρ ε C A α} {process : Process ρ ε C A α}

theorem finished_of_values (h : ∀ process ∈ sys.processes.values, succeeded process = true) :
    sys.Finished := by
  intro pid process hg
  have hdn := h process (mem_values.mpr ⟨pid, hg⟩)
  unfold succeeded at hdn
  split at hdn
  · exact ⟨_, ‹_›⟩
  · cases hdn

/-- A process that mends the store, or has crashed. -/
def Mender (R : Repair σ) (perform : Nat → (c : C) → σ → σ × A c) (sys : System σ ρ ε C A α)
    (pid : Nat) : Prop :=
  ∃ process, sys.processes.get pid = some process ∧
    ∀ prog, process.prog = some prog → prog.Mends R perform pid sys.store

/-- Every process is honest, and the store is good or has a mender. Before anybody has
started that need not be so: it is where the store was good at the beginning, or where a
request that is `due` has been made. -/
structure Tended (R : Repair σ) (perform : Nat → (c : C) → σ → σ × A c) (due : ρ → Prop)
    (start : σ) (sys : System σ ρ ε C A α) : Prop where
  honest : ∀ pid request prog, sys.processes.get pid = some ⟨request, some prog⟩ →
    prog.Honest R perform pid
  mended : (R.Good start ∨ ∃ pid process, sys.processes.get pid = some process ∧
      due process.request) → R.Good sys.store ∨ ∃ pid, sys.Mender R perform pid

variable {due : ρ → Prop} {start : σ}

theorem tended_idle : Tended R perform due start (idle start : System σ ρ ε C A α) := by
  refine ⟨fun pid request prog hg => absurd hg (by simp [idle]), fun h => ?_⟩
  rcases h with hgd | ⟨pid, process, hg, -⟩
  · exact .inl hgd
  · exact absurd hg (by simp [idle])

/-- A due request that is stored after an update was stored before it, or is the one that
was put there. -/
theorem due_insert {procs : Table Nat (Process ρ ε C A α)} {pid : Nat}
    (h : ∃ pid' process', (procs.insert pid process).get pid' = some process' ∧
      due process'.request) :
    due process.request ∨ ∃ pid' process', procs.get pid' = some process' ∧ due process'.request := by
  obtain ⟨pid', process', hg, hdue⟩ := h
  rcases get_insert_cases hg with ⟨-, rfl⟩ | hold
  · exact .inl hdue
  · exact .inr ⟨pid', process', hold, hdue⟩

theorem Mender.insert {pid pid' : Nat} {s : σ} (hmend : sys.Mender R perform pid')
    (hne : pid' ≠ pid) (hqui : R.Quiet sys.store s) :
    (⟨s, sys.processes.insert pid process⟩ : System σ ρ ε C A α).Mender R perform pid' := by
  obtain ⟨process', hg, hmen⟩ := hmend
  refine ⟨process', ?_, fun prog hpr => (hmen prog hpr).of_quiet hqui⟩
  rw [get_insert, if_neg hne, hg]

theorem mender_insert {pid : Nat} {s : σ}
    (hmen : ∀ prog, process.prog = some prog → prog.Mends R perform pid s) :
    (⟨s, sys.processes.insert pid process⟩ : System σ ρ ε C A α).Mender R perform pid :=
  ⟨process, by rw [get_insert_self], hmen⟩

section

variable {admissible : ρ → Prop}
  (hhon : ∀ pid request, admissible request → (body request).Honest R perform pid)
  (hdue : ∀ pid request s, admissible request → due request → (body request).Mends R perform pid s)
include hhon hdue

/-- **One event.** -/
theorem Tended.exec {event : Event ρ} (hadm : Admits admissible sys event)
    (h : Tended R perform due start sys) :
    Tended R perform due start (exec perform body sys event).1 := by
  obtain hsm | ⟨pid, request, rfl, hno, hnx⟩ | ⟨pid, request, c, rest, rfl, hg, hnx⟩ |
    ⟨pid, request, c, rest, rfl, hg, hnx⟩ := exec_cases perform body sys event
  · rw [hsm]
    exact h
  · -- a new process is no older one, so that no mender is lost
    rw [hnx]
    refine ⟨fun pid' request' prog hg => ?_, fun hstar => ?_⟩
    · rcases get_insert_cases hg with ⟨rfl, heq⟩ | hold
      · obtain ⟨rfl, rfl⟩ : request' = request ∧ prog = body request := by
          injection heq with hreq hpr
          exact ⟨hreq, some.inj hpr⟩
        exact hhon pid' request' hadm
      · exact h.honest pid' request' prog hold
    · have hcas : due request ∨ (R.Good start ∨ ∃ pid' process',
          sys.processes.get pid' = some process' ∧ due process'.request) := by
        rcases hstar with hgd | hstd
        · exact .inr (.inl hgd)
        · exact (due_insert hstd).imp_right .inr
      rcases hcas with hrequ | hbef
      · refine .inr ⟨pid, mender_insert fun prog hpr => ?_⟩
        cases hpr
        exact hdue pid request sys.store hadm hrequ
      · refine (h.mended hbef).imp_right fun ⟨pid', hmend⟩ => ⟨pid', ?_⟩
        have hne : pid' ≠ pid := by
          rintro rfl
          obtain ⟨process', hg', -⟩ := hmend
          cases hno.symm.trans hg'
        exact hmend.insert hne (R.refl _)
  · rw [hnx]
    obtain ⟨hcl, hrs⟩ := h.honest pid request _ hg sys.store
    refine ⟨fun pid' request' prog hg' => ?_, fun hstar => ?_⟩
    · rcases get_insert_cases hg' with ⟨rfl, heq⟩ | hold
      · obtain ⟨rfl, rfl⟩ : request' = request ∧ prog = rest (perform pid' c sys.store).2 := by
          injection heq with hreq hpr
          exact ⟨hreq, some.inj hpr⟩
        exact hrs
      · exact h.honest pid' request' prog hold
    · rcases hcl with hqui | hmen
      · have hbef : R.Good start ∨ ∃ pid' process',
            sys.processes.get pid' = some process' ∧ due process'.request := by
          refine hstar.imp_right fun hstd => ?_
          rcases due_insert hstd with hrequ | hold
          · exact ⟨pid, _, hg, hrequ⟩
          · exact hold
        rcases h.mended hbef with hgd | ⟨pid', hmend⟩
        · exact .inl (R.good hqui hgd)
        · by_cases heq : pid' = pid
          · -- the mender itself has made a call
            subst heq
            obtain ⟨process', hg', hmen⟩ := hmend
            cases hg.symm.trans hg'
            refine .inr ⟨pid', mender_insert fun prog hpr => ?_⟩
            cases hpr
            exact hmen _ rfl sys.store (R.refl _)
          · exact .inr ⟨pid', hmend.insert heq hqui⟩
      · refine .inr ⟨pid, mender_insert fun prog hpr => ?_⟩
        cases hpr
        exact hmen
  · rw [hnx]
    refine ⟨fun pid' request' prog hg' => ?_, fun _ => ?_⟩
    · rcases get_insert_cases hg' with ⟨rfl, heq⟩ | hold
      · injection heq with _ hpr
        cases hpr
      · exact h.honest pid' request' prog hold
    · exact .inr ⟨pid, mender_insert nofun⟩

/-- **Whole interleavings.** -/
theorem tended_of_run {h : List (System σ ρ ε C A α × Event ρ)}
    (hrun : Run (System.exec perform body) (Admits admissible) (idle start) h sys) :
    Tended R perform due start sys :=
  hrun.invariant (P := Tended R perform due start)
    (fun _ _ hadm hten => hten.exec hhon hdue hadm) tended_idle

end

/-- **What is left when everybody has finished is good.** -/
theorem Tended.good (h : Tended R perform due start sys) (hfin : sys.Finished)
    (hstar : R.Good start ∨ ∃ pid process, sys.processes.get pid = some process ∧
      due process.request) : R.Good sys.store := by
  rcases h.mended hstar with hgd | ⟨pid, process, hg, hmen⟩
  · exact hgd
  · obtain ⟨a, hdn⟩ := hfin pid process hg
    exact hmen _ hdn

end System
end SlogaBackend
