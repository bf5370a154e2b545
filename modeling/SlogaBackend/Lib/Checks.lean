import Mathlib.Data.List.Basic

/-!
# Sequences of checks

Fallible code is written here in `Except`, one check a line. A function that
refuses early is then a chain of binds, and what its success means is read off
the chain: `bind_eq_ok` peels one bind, `refuseIf_eq_ok`, `okOr_eq_ok` and
`mapErr_eq_ok` say what a passed check leaves behind. Proofs about such a
function start with a `simp only` over these and never look at the refusals.
-/

namespace SlogaBackend.Checks

universe u v

variable {ε : Type u} {α β : Type v}

/-- `if condition { return Err(error) }`. -/
def refuseIf (condition : Prop) [Decidable condition] (error : ε) : Except ε Unit :=
  if condition then .error error else .ok ()

/-- `value.ok_or(error)`. -/
def okOr (value : Option α) (error : ε) : Except ε α :=
  match value with
  | some a => .ok a
  | none => .error error

/-- `result.map_err(|_| error)`. -/
def mapErr (result : Except ε α) (error : ε) : Except ε α :=
  match result with
  | .ok a => .ok a
  | .error _ => .error error

variable {x : Except ε α} {f : α → Except ε β} {a : α}

/-- A chain of checks succeeds exactly when its first link does and the rest
succeeds on what the first returned. -/
theorem bind_eq_ok {b : β} : (x >>= f) = .ok b ↔ ∃ a, x = .ok a ∧ f a = .ok b := by
  cases x with
  | error e =>
    constructor
    · intro h
      exact absurd h (by simp [bind, Except.bind])
    · rintro ⟨a, ha, -⟩
      cases ha
  | ok a => simp [bind, Except.bind]

theorem bind_of_eq_ok (h : x = .ok a) : (x >>= f) = f a := by
  rw [h]
  rfl

theorem map_eq_ok {f : α → β} {b : β} : (f <$> x) = .ok b ↔ ∃ a, x = .ok a ∧ f a = b := by
  cases x <;> simp [Functor.map, Except.map]

theorem pure_eq_ok {b : α} : (pure a : Except ε α) = .ok b ↔ a = b := by
  simp [pure, Except.pure]

theorem ok_eq_ok {b : α} : (Except.ok a : Except ε α) = .ok b ↔ a = b := by
  simp

variable {error : ε}

theorem refuseIf_eq_ok {condition : Prop} [Decidable condition] {u : Unit} :
    refuseIf condition error = .ok u ↔ ¬ condition := by
  unfold refuseIf
  split <;> simp_all

theorem okOr_eq_ok {value : Option α} : okOr value error = .ok a ↔ value = some a := by
  cases value <;> simp [okOr]

theorem mapErr_eq_ok {result : Except ε α} : mapErr result error = .ok a ↔ result = .ok a := by
  cases result <;> simp [mapErr]

/-! ## Two chains, side by side -/

/-- Two chains of checks refuse together, or what they return is related. -/
def Alike (R : α → β → Prop) : Except ε α → Except ε β → Prop
  | .ok a, .ok b => R a b
  | .error _, .error _ => True
  | _, _ => False

variable {γ δ : Type v} {y : Except ε β} {R : α → β → Prop} {S : γ → δ → Prop}

theorem Alike.bind {f : α → Except ε γ} {g : β → Except ε δ} (h : Alike R x y)
    (hfg : ∀ a b, R a b → Alike S (f a) (g b)) : Alike S (x >>= f) (y >>= g) := by
  match x, y, h with
  | .ok a, .ok b, h => exact hfg a b h
  | .error _, .error _, _ => trivial

theorem alike_refuseIf {p q : Prop} [Decidable p] [Decidable q] {e e' : ε} (h : p ↔ q) :
    Alike (fun _ _ => ¬ p) (refuseIf p e) (refuseIf q e') := by
  unfold refuseIf
  by_cases hp : p
  · rw [if_pos hp, if_pos (h.mp hp)]
    trivial
  · rw [if_neg hp, if_neg (mt h.mpr hp)]
    exact hp

theorem Alike.iff (h : Alike R x y) : (∃ a, x = .ok a) ↔ ∃ b, y = .ok b := by
  match x, y, h with
  | .ok a, .ok b, _ => exact ⟨fun _ => ⟨b, rfl⟩, fun _ => ⟨a, rfl⟩⟩
  | .error _, .error _, _ => simp

end SlogaBackend.Checks
