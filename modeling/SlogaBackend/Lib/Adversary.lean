import SlogaBackend.Lib.Discipline

/-!
# Programs against an adversary

The answers to a program's calls are somebody else's to choose, with all that was called and
answered before in view. `play` runs a program against such a strategy and keeps the record. It is
a function, so whatever the answers are the program ends.

What a program obeys, it obeys in every play (`Obeys.play`): each call is allowed after those before
it, and the end is as promised.
-/

namespace SlogaBackend

variable {ε C : Type} {A : C → Type} {α : Type} {L : Type*}

/-- A call with its answer. -/
abbrev Exchange (C : Type) (A : C → Type) : Type := Σ c : C, A c

/-- Whoever answers has seen what came before. -/
abbrev Strategy (C : Type) (A : C → Type) : Type := List (Exchange C A) → (c : C) → A c

/-- The answer of a strategy goes on the record. -/
def Strategy.perform (strategy : Strategy C A) (_ : Nat) (c : C) (past : List (Exchange C A)) :
    List (Exchange C A) × A c :=
  (past ++ [⟨c, strategy past c⟩], strategy past c)

/-- What one knows after an exchange. -/
def Discipline.after (D : Discipline C A L) (record : List (Exchange C A)) : L :=
  record.foldl (fun l exchange => D.note l exchange.1 exchange.2) D.init

/-- Every call of a record was allowed when it was made. -/
def Discipline.Allows (D : Discipline C A L) (record : List (Exchange C A)) : Prop :=
  ∀ before exchange later, record = before ++ exchange :: later →
    D.allowed (D.after before) exchange.1

theorem Discipline.after_concat (D : Discipline C A L) (record : List (Exchange C A))
    (exchange : Exchange C A) :
    D.after (record ++ [exchange]) = D.note (D.after record) exchange.1 exchange.2 := by
  simp [Discipline.after]

theorem Discipline.Allows.concat {D : Discipline C A L} {record : List (Exchange C A)}
    {exchange : Exchange C A} (hrec : D.Allows record)
    (hall : D.allowed (D.after record) exchange.1) : D.Allows (record ++ [exchange]) := by
  intro before other later heq
  rcases List.eq_nil_or_concat later with rfl | ⟨init, final, rfl⟩
  · obtain ⟨rfl, hoth⟩ := List.append_inj' heq rfl
    obtain rfl := List.singleton_inj.mp hoth
    exact hall
  · have hspl : record ++ [exchange] = before ++ other :: init ++ [final] := by simpa using heq
    exact hrec before other init (List.append_inj_left' hspl rfl)

namespace Prog

/-- The whole record of a program against a strategy, and its result. -/
def play (p : Prog ε C A α) (strategy : Strategy C A) : List (Exchange C A) × Except ε α :=
  p.alone strategy.perform 0 []

variable {D : Discipline C A L}

/-- **Against every strategy.** -/
theorem Obeys.play {post : L → Except ε α → Prop} {p : Prog ε C A α} (hp : p.Obeys D post D.init)
    {strategy : Strategy C A} (hpos : ∀ past c, D.possible c (strategy past c)) :
    D.Allows (p.play strategy).1 ∧ post (D.after (p.play strategy).1) (p.play strategy).2 := by
  suffices hpl : ∀ past : List (Exchange C A), D.Allows past → p.Obeys D post (D.after past) →
      D.Allows (p.alone strategy.perform 0 past).1 ∧
        post (D.after (p.alone strategy.perform 0 past).1) (p.alone strategy.perform 0 past).2 by
    exact hpl [] (fun before _ _ heq => absurd heq (by simp)) hp
  clear hp
  induction p with
  | done result => exact fun past hps hp => ⟨hps, hp⟩
  | call c rest ih =>
    intro past hps ⟨hall, hrs⟩
    refine ih (strategy past c) (past ++ [⟨c, strategy past c⟩]) (hps.concat hall) ?_
    rw [Discipline.after_concat]
    exact hrs _ (hpos past c)

theorem Obeys.check_bind {β : Type} {post : L → Except ε β → Prop} {checks : Except ε α}
    {k : α → Prog ε C A β} {l : L} (hok : ∀ a, checks = .ok a → (k a).Obeys D post l)
    (herr : ∀ e, checks = .error e → post l (.error e)) :
    ((check checks).bind k).Obeys D post l := by
  cases checks with
  | ok a => exact hok a rfl
  | error e => exact herr e rfl

/-- The program a number of times over. -/
def times (p : Prog ε C A Unit) : ℕ → Prog ε C A Unit
  | 0 => done (.ok ())
  | n + 1 => p.bind fun _ => p.times n

theorem Frames.times {V : Type*} {view : L → V} {p : Prog ε C A Unit} (hp : Frames D view p) (n : ℕ)
    : Frames D view (p.times n) := by
  induction n with
  | zero => exact Frames.done _
  | succ n ih => exact hp.bind fun _ => ih

end Prog
end SlogaBackend
