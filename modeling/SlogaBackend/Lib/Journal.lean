import Mathlib.Algebra.BigOperators.Group.List.Basic
import Mathlib.Tactic.Linarith

/-!
# Double-entry journals

A journal is a list of rows that each move an amount from one account to
another. What an account holds is then not a separate fact but a sum over the
journal: what rows credit to it, less what rows debit from it.

`Balanced` says that balances kept beside a journal are those sums, on the
accounts that have a balance at all, and that a counter kept beside each balance
counts the rows that name the account, up to the largest number the counter can
hold. `Balanced.post` is the one step: a row with two different sides, written
together with the two balances it changes, keeps both.

Rows are of any type; `Reading` says how to read one.
-/

namespace SlogaBackend

universe u v

/-- How a row is read: its two sides and its amount. -/
structure Reading (ρ : Type u) (κ : Type v) where
  debit : ρ → κ
  credit : ρ → κ
  amount : ρ → Int

namespace Reading

variable {ρ : Type u} {κ : Type v} [DecidableEq κ] (R : Reading ρ κ)

/-- What rows credit to an account. -/
def credited (rows : List ρ) (a : κ) : Int :=
  ((rows.filter fun r => R.credit r = a).map R.amount).sum

/-- What rows debit from an account. -/
def debited (rows : List ρ) (a : κ) : Int := ((rows.filter fun r => R.debit r = a).map R.amount).sum

/-- How many rows name an account. -/
def named (rows : List ρ) (a : κ) : Nat :=
  (rows.filter fun r => R.debit r = a ∨ R.credit r = a).length

section

variable (r : ρ) (rows : List ρ) (a : κ)

theorem credited_cons :
    R.credited (r :: rows) a = (if R.credit r = a then R.amount r else 0) + R.credited rows a := by
  unfold credited
  by_cases h : R.credit r = a
  · simp [h]
  · simp [h]

theorem debited_cons :
    R.debited (r :: rows) a = (if R.debit r = a then R.amount r else 0) + R.debited rows a := by
  unfold debited
  by_cases h : R.debit r = a
  · simp [h]
  · simp [h]

theorem named_cons : R.named (r :: rows) a =
      (if R.debit r = a ∨ R.credit r = a then 1 else 0) + R.named rows a := by
  unfold named
  by_cases h : R.debit r = a ∨ R.credit r = a
  · simp [h, Nat.add_comm]
  · simp [h]

end

/-- Balances and counters that agree with a journal. -/
structure Balanced (system : κ → Prop) (cap : Nat) (rows : List ρ) (balance : κ → Int)
    (version : κ → Nat) : Prop where
  balance_eq : ∀ a, ¬ system a → balance a = R.credited rows a - R.debited rows a
  version_eq : ∀ a, ¬ system a → version a = min (R.named rows a) cap

variable {R} {system : κ → Prop}

theorem Balanced.empty {cap : Nat} : R.Balanced system cap [] (fun _ => 0) fun _ => 0 where
  balance_eq := fun a _ => by simp [credited, debited]
  version_eq := fun a _ => by simp [named]

/-- **Posting a row keeps the books.** The new row stands on two different
accounts; each side that has a balance moves by the row's amount and counts the
row, every other account stays. -/
theorem Balanced.post {cap : Nat} {rows : List ρ} {balance balance' : κ → Int}
    {version version' : κ → Nat} (h : R.Balanced system cap rows balance version) {r : ρ}
    (hne : R.debit r ≠ R.credit r)
    (hdeb : ¬ system (R.debit r) → balance' (R.debit r) = balance (R.debit r) - R.amount r ∧
      version' (R.debit r) = min (version (R.debit r) + 1) cap)
    (hcred : ¬ system (R.credit r) → balance' (R.credit r) = balance (R.credit r) + R.amount r ∧
      version' (R.credit r) = min (version (R.credit r) + 1) cap)
    (hoth : ∀ a, a ≠ R.debit r → a ≠ R.credit r → balance' a = balance a ∧ version' a = version a) :
    R.Balanced system cap (r :: rows) balance' version' := by
  refine ⟨fun a ha => ?_, fun a ha => ?_⟩
  · have hold := h.balance_eq a ha
    rw [credited_cons, debited_cons]
    by_cases hd : a = R.debit r
    · subst hd
      rw [(hdeb ha).1, if_neg hne.symm, if_pos rfl]
      linarith
    · by_cases hc : a = R.credit r
      · subst hc
        rw [(hcred ha).1, if_pos rfl, if_neg hne]
        linarith
      · rw [(hoth a hd hc).1, if_neg (Ne.symm hc), if_neg (Ne.symm hd)]
        linarith
  · have hold := h.version_eq a ha
    rw [named_cons]
    by_cases hd : a = R.debit r
    · subst hd
      rw [(hdeb ha).2, if_pos (.inl rfl), hold]
      omega
    · by_cases hc : a = R.credit r
      · subst hc
        rw [(hcred ha).2, if_pos (.inr rfl), hold]
        omega
      · have hnot : ¬ (R.debit r = a ∨ R.credit r = a) := by
          rintro (rfl | rfl)
          · exact hd rfl
          · exact hc rfl
        rw [(hoth a hd hc).2, if_neg hnot, hold, Nat.zero_add]

end Reading
end SlogaBackend
