import SlogaBackend.Lib.Discipline

/-!
# Watched systems

A store next to what each process knows from its own calls. No program reads the second; it is
there for invariants that relate the places of several processes to the store.

`Watched.run` is the invariant rule. The bodies obey the discipline, and a call that is allowed to
a process where it is, and made where the run permits it, keeps the invariant.
-/

namespace SlogaBackend

variable {σ L : Type*} {ρ ε C : Type} {A : C → Type} {α : Type}

structure Watched (σ L : Type*) where
  store : σ
  locals : Nat → L

namespace Watched

/-- Nobody knows anything yet. -/
def start (D : Discipline C A L) (store : σ) : Watched σ L := ⟨store, fun _ => D.init⟩

def perform (D : Discipline C A L) (base : Nat → (c : C) → σ → σ × A c) (pid : Nat) (c : C)
    (w : Watched σ L) : Watched σ L × A c :=
  let (store, answer) := base pid c w.store
  (⟨store, Function.update w.locals pid (D.note (w.locals pid) c answer)⟩, answer)

variable {D : Discipline C A L} {base : Nat → (c : C) → σ → σ × A c} {body : ρ → Prog ε C A α}
  {admissible : ρ → Prop} {permits : Nat → C → Watched σ L → Prop}
  {post : ρ → L → Except ε α → Prop} {Inv : Watched σ L → Prop}
  {sys : System (Watched σ L) ρ ε C A α}

/-- **The invariant rule.** -/
theorem run (hbd : ∀ request, admissible request → (body request).Obeys D (post request) D.init)
    (hst : ∀ pid c w, Inv w → permits pid c w → D.allowed (w.locals pid) c →
      Inv (w.perform D base pid c).1 ∧ D.possible c (base pid c w.store).2) {s : σ}
    (hstar : Inv (start D s)) {h : List (System (Watched σ L) ρ ε C A α × Event ρ)}
    (hrun : Run (System.exec (fun pid c w => w.perform D base pid c) body)
      (System.StepAdmits admissible permits) (idle (start D s)) h sys) :
    System.Lawful D Watched.locals post Inv sys :=
  System.Lawful.run (fun _ _ _ => update_self ..)
    (fun _ _ _ _ hq => update_of_ne hq ..) hbd hst
    (System.lawful_idle hstar fun _ => rfl) hrun

theorem post_of_ended (h : System.Lawful D Watched.locals post Inv sys) (hend : sys.AllEnded)
    (pid : Nat) :
    sys.store.locals pid = D.init ∨ ∃ request result, post request (sys.store.locals pid) result := by
  cases hg : sys.processes.get pid with
  | none => exact .inl (h.fresh pid hg)
  | some process =>
    obtain ⟨result, hpr⟩ := hend pid process hg
    obtain ⟨request, prog⟩ := process
    subst hpr
    exact .inr ⟨request, result, h.process pid request _ hg⟩

end Watched
end SlogaBackend
