import Mathlib.Data.List.Basic
import Mathlib.Data.List.Induction

/-!
# Runs and their histories

A machine here is a total step function `exec`, which takes a state and an input
to the next state and an answer, together with the inputs it admits in a state.
A run carries its history: the list of the states it passed through, each with
the input given there. The history is what temporal statements are about, and
it is cut with `++`, so "between two steps" is a segment of a list.

Three rules do the work downstream.

* `Run.invariant`: what the start has and every admitted step keeps, the end
  has.
* `Run.split`: a run over a concatenation passes through a middle state.
* `Run.exists_change`: a property the end has and the start lacks was made true
  by some step of the history.
-/

namespace SlogaBackend

variable {σ ι ρ : Type*}

/-- `Run exec admits s h t`: from `s`, along the steps of the history `h`, to
`t`, every step admitted. -/
inductive Run (exec : σ → ι → σ × ρ) (admits : σ → ι → Prop) : σ → List (σ × ι) → σ → Prop where
  | nil (s : σ) : Run exec admits s [] s
  | cons {s t : σ} {i : ι} {h : List (σ × ι)} :
      admits s i → Run exec admits (exec s i).1 h t → Run exec admits s ((s, i) :: h) t

/-- The state after a list of inputs. -/
def execAll (exec : σ → ι → σ × ρ) : σ → List ι → σ
  | s, [] => s
  | s, i :: is => execAll exec (exec s i).1 is

/-- The history a list of inputs leaves. -/
def historyOf (exec : σ → ι → σ × ρ) : σ → List ι → List (σ × ι)
  | _, [] => []
  | s, i :: is => (s, i) :: historyOf exec (exec s i).1 is

theorem historyOf_concat (exec : σ → ι → σ × ρ) (s : σ) (inputs : List ι) (i : ι) :
    historyOf exec s (inputs ++ [i]) = historyOf exec s inputs ++ [(execAll exec s inputs, i)] := by
  induction inputs generalizing s with
  | nil => rfl
  | cons j inputs ih => exact congrArg ((s, j) :: ·) (ih (exec s j).1)

/-- Every input of a list is admitted where it is given. -/
def AdmitsAll (exec : σ → ι → σ × ρ) (admits : σ → ι → Prop) : σ → List ι → Prop
  | _, [] => True
  | s, i :: is => admits s i ∧ AdmitsAll exec admits (exec s i).1 is

instance AdmitsAll.decidable (exec : σ → ι → σ × ρ) (admits : σ → ι → Prop)
    [hdec : ∀ s i, Decidable (admits s i)] : ∀ s inputs, Decidable (AdmitsAll exec admits s inputs)
  | _, [] => isTrue trivial
  | s, i :: is =>
    have := AdmitsAll.decidable exec admits (exec s i).1 is
    inferInstanceAs (Decidable (_ ∧ _))

theorem admitsAll_true {exec : σ → ι → σ × ρ} (inputs : List ι) :
    ∀ {s : σ}, AdmitsAll exec (fun _ _ => True) s inputs := by
  induction inputs with
  | nil => exact fun {_} => trivial
  | cons i inputs ih => exact fun {_} => ⟨trivial, ih⟩

/-- The states some run from `s` ends in. -/
def Reachable (exec : σ → ι → σ × ρ) (admits : σ → ι → Prop) (s t : σ) : Prop :=
  ∃ h, Run exec admits s h t

namespace Run

variable {exec : σ → ι → σ × ρ} {admits : σ → ι → Prop}

theorem of_admitsAll {inputs : List ι} : ∀ {s : σ}, AdmitsAll exec admits s inputs →
      Run exec admits s (historyOf exec s inputs) (execAll exec s inputs) := by
  induction inputs with
  | nil => exact fun {s} _ => nil s
  | cons i inputs ih => exact fun h => cons h.1 (ih h.2)

variable {s t m : σ} {h h1 h2 : List (σ × ι)} {P : σ → Prop}

theorem mono {admits' : σ → ι → Prop} (hmn : ∀ s i, admits s i → admits' s i)
    (hrun : Run exec admits s h t) : Run exec admits' s h t := by
  induction hrun with
  | nil s => exact nil s
  | cons hadm _ ih => exact cons (hmn _ _ hadm) ih

theorem congr {exec' : σ → ι → σ × ρ} (hagr : ∀ s i, admits s i → exec s i = exec' s i)
    (hrun : Run exec admits s h t) : Run exec' admits s h t := by
  induction hrun with
  | nil s => exact nil s
  | @cons s t i h hadm _ ih =>
    rw [hagr s i hadm] at ih
    exact cons hadm ih

/-- **The invariant rule.** -/
theorem invariant (hsp : ∀ s i, admits s i → P s → P (exec s i).1) (hrun : Run exec admits s h t)
    (hs : P s) : P t := by
  induction hrun with
  | nil s => exact hs
  | cons hadm _ ih => exact ih (hsp _ _ hadm hs)

theorem append (hrun1 : Run exec admits s h1 m) (hrun2 : Run exec admits m h2 t)
    : Run exec admits s (h1 ++ h2) t := by
  induction hrun1 with
  | nil s => exact hrun2
  | cons hadm _ ih => exact cons hadm (ih hrun2)

theorem split : ∀ {s t : σ} {h2 : List (σ × ι)}, Run exec admits s (h1 ++ h2) t →
      ∃ m, Run exec admits s h1 m ∧ Run exec admits m h2 t := by
  induction h1 with
  | nil =>
    intro s t h2 hrun
    exact ⟨s, nil s, hrun⟩
  | cons e h1 ih =>
    intro s t h2 hrun
    cases hrun with
    | cons hadm hrs =>
      obtain ⟨m, hm1, hm2⟩ := ih hrs
      exact ⟨m, cons hadm hm1, hm2⟩

theorem split_at {i : ι} (hrun : Run exec admits s (h1 ++ (m, i) :: h2) t) :
    Run exec admits s h1 m ∧ admits m i ∧ Run exec admits (exec m i).1 h2 t := by
  obtain ⟨m', hm1, hm2⟩ := split hrun
  cases hm2 with
  | cons hadm hrs => exact ⟨hm1, hadm, hrs⟩

/-- **The invariant rule with the history.** What the empty history has and every step keeps that
is appended to it, the whole run has. -/
theorem invariant_history {P : List (σ × ι) → σ → Prop} {s : σ} (hnil : P [] s)
    (hsp : ∀ h t i, Run exec admits s h t → admits t i → P h t → P (h ++ [(t, i)]) (exec t i).1)
    {t : σ} {h : List (σ × ι)} (hrun : Run exec admits s h t) : P h t := by
  induction h using List.reverseRecOn generalizing t with
  | nil =>
    cases hrun
    exact hnil
  | append_singleton h entry ih =>
    obtain ⟨m, i⟩ := entry
    obtain ⟨hbef, hadm, haft⟩ := split_at hrun
    cases haft
    exact hsp h m i hbef hadm (ih hbef)

/-- **A property gained was gained at some step.** -/
theorem exists_change (hrun : Run exec admits s h t) (hs : ¬ P s) (ht : P t) :
    ∃ h1 m i h2, h = h1 ++ (m, i) :: h2 ∧ admits m i ∧ ¬ P m ∧ P (exec m i).1 := by
  induction hrun with
  | nil s => exact absurd ht hs
  | @cons s t i h hadm _ ih =>
    by_cases hnx : P (exec s i).1
    · exact ⟨[], s, i, h, rfl, hadm, hs, hnx⟩
    · obtain ⟨h1, m, j, h2, rfl, hj, hm, hm'⟩ := ih hnx ht
      exact ⟨(s, i) :: h1, m, j, h2, rfl, hj, hm, hm'⟩

end Run

namespace Reachable

variable {exec : σ → ι → σ × ρ} {admits : σ → ι → Prop} {s t : σ}

theorem of_admitsAll {inputs : List ι} (h : AdmitsAll exec admits s inputs) :
    Reachable exec admits s (execAll exec s inputs) := ⟨_, Run.of_admitsAll h⟩

theorem mono {admits' : σ → ι → Prop} (hmn : ∀ s i, admits s i → admits' s i)
    (hst : Reachable exec admits s t) : Reachable exec admits' s t := by
  obtain ⟨h, hrun⟩ := hst
  exact ⟨h, hrun.mono hmn⟩

theorem step (hst : Reachable exec admits s t) {i : ι} (hadm : admits t i) :
    Reachable exec admits s (exec t i).1 := by
  obtain ⟨h, hrun⟩ := hst
  exact ⟨h ++ [(t, i)], hrun.append (Run.cons hadm (Run.nil _))⟩

theorem invariant {P : σ → Prop} (hsp : ∀ s i, admits s i → P s → P (exec s i).1)
    (hst : Reachable exec admits s t) (hs : P s) : P t := by
  obtain ⟨h, hrun⟩ := hst
  exact hrun.invariant hsp hs

end Reachable

end SlogaBackend
