import Mathlib.Logic.Function.Basic
import Mathlib.Data.Option.Basic
import Mathlib.Order.Basic

/-!
# A value and the log it is read from

A log has at most one entry for each epoch, and a value is kept beside it together
with the epoch up to which the entries have been applied. The two are written
apart: an entry is appended first, and the value follows later, by whoever comes
by. `EpochLog.Step` says what a single write may do, an append at an epoch the
value has reached or an application of the next entry, and nothing is said about
who writes or when.

`EpochLog.Wf` is the agreement between the two sides, and `Step.wf` says that the
writes keep it. The reason is short: the entries up to the current epoch are all
there, so an append that finds its epoch free is the one just after it, and the
log never runs ahead of the value by more than one entry.

A reader that took a copy of the value at some epoch holds what the log determines
there. Entries are never changed, so `Step.replay` lets it use the copy at any
later time.
-/

namespace SlogaBackend

structure EpochLog (δ β : Type*) where
  current : Nat
  value : β
  log : Nat → Option δ

namespace EpochLog

variable {δ β : Type*} (apply : β → δ → β)

/-- The start value with the entries of the epochs `1..n` applied in order, when they are
all there. -/
def replay (start : β) (log : Nat → Option δ) : Nat → Option β
  | 0 => some start
  | n + 1 => (replay start log n).bind fun value => (log (n + 1)).map (apply value)

/-- One write. -/
inductive Step : EpochLog δ β → EpochLog δ β → Prop where
  | append {a : EpochLog δ β} {n : Nat} {d : δ} : n ≤ a.current → a.log (n + 1) = none →
      Step a { a with log := Function.update a.log (n + 1) (some d) }
  | advance {a : EpochLog δ β} {d : δ} : a.log (a.current + 1) = some d →
      Step a { a with current := a.current + 1, value := apply a.value d }

/-- The value is what the log determines, and the log is at most one entry ahead. -/
structure Wf (start : β) (a : EpochLog δ β) : Prop where
  replayed : replay apply start a.log a.current = some a.value
  bounded : ∀ e d, a.log e = some d → 1 ≤ e ∧ e ≤ a.current + 1

variable {apply} {start : β} {log log' : Nat → Option δ} {a b : EpochLog δ β}

theorem replay_mono (hmn : ∀ e d, log e = some d → log' e = some d) :
    ∀ {n : Nat} {value : β}, replay apply start log n = some value →
      replay apply start log' n = some value := by
  intro n
  induction n with
  | zero => exact fun h => h
  | succ n ih =>
    intro value h
    simp only [replay, Option.bind_eq_some_iff, Option.map_eq_some_iff] at h ⊢
    obtain ⟨before, hbef, d, hd, rfl⟩ := h
    exact ⟨before, ih hbef, d, hmn _ _ hd, rfl⟩

theorem exists_of_replay {n : Nat} {value : β} (h : replay apply start log n = some value) :
    ∀ e, 1 ≤ e → e ≤ n → ∃ d, log e = some d := by
  induction n generalizing value with
  | zero => omega
  | succ n ih =>
    intro e hone hle
    simp only [replay, Option.bind_eq_some_iff, Option.map_eq_some_iff] at h
    obtain ⟨before, hbef, d, hd, -⟩ := h
    rcases Nat.lt_or_ge n e with hlt | hge
    · obtain rfl : e = n + 1 := by omega
      exact ⟨d, hd⟩
    · exact ih hbef e hone hge

section

variable (hst : Step apply a b)
include hst

theorem Step.entry {e : Nat} {d : δ} (h : a.log e = some d) : b.log e = some d := by
  cases hst with
  | @append n d' _ hfr =>
    have hne : e ≠ n + 1 := by
      rintro rfl
      cases hfr.symm.trans h
    exact (Function.update_of_ne hne _ _).trans h
  | advance _ => exact h

theorem Step.current_le : a.current ≤ b.current := by
  cases hst with
  | append _ _ => exact Nat.le_refl _
  | advance _ => exact Nat.le_succ _

/-- A copy taken at an epoch stays what the log determines there. -/
theorem Step.replay {n : Nat} {value : β} (h : EpochLog.replay apply start a.log n = some value) :
    EpochLog.replay apply start b.log n = some value :=
  replay_mono (fun _ _ => hst.entry) h

/-- **The writes keep the agreement.** -/
theorem Step.wf (hwf : Wf apply start a) : Wf apply start b := by
  have hrep := hst.replay hwf.replayed
  cases hst with
  | @append n d hle hfr =>
    refine ⟨hrep, fun e d' he => ?_⟩
    by_cases heq : e = n + 1
    · subst heq
      exact ⟨by omega, Nat.succ_le_succ hle⟩
    · exact hwf.bounded e d' ((Function.update_of_ne heq _ _).symm.trans he)
  | @advance d hd =>
    refine ⟨?_, fun e d' he => ?_⟩
    · simp only [EpochLog.replay, Option.bind_eq_some_iff, Option.map_eq_some_iff]
      exact ⟨a.value, hrep, d, hd, rfl⟩
    · obtain ⟨hone, hle⟩ := hwf.bounded e d' he
      exact ⟨hone, Nat.le_succ_of_le hle⟩

theorem Step.advanced : (b.current = a.current ∧ b.value = a.value) ∨
      ∃ d, a.log (a.current + 1) = some d ∧ b.current = a.current + 1 ∧
        b.value = apply a.value d := by
  cases hst with
  | append _ _ => exact .inl ⟨rfl, rfl⟩
  | @advance d hd => exact .inr ⟨d, hd, rfl, rfl⟩

end

end EpochLog
end SlogaBackend
