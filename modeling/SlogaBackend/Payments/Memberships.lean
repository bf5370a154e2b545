import SlogaBackend.Payments.Types

/-!
# Memberships and numbers

The operations of `models/cipher_memberships/ops/reference.rs` and
`models/cipher_numbers/ops/reference.rs`, each atomic under its map's mutex.

A membership is written by compare-and-swap on its version, and a number is held by
at most one membership. A number is claimed for an order and stays with it; only a
release puts it back. The drivers find a number row by its order, so everything here
that reads the number table through an order rests on `OrdersDistinct`: no two rows
name one order.
-/

namespace SlogaBackend.Payments

/-! ## Memberships -/

/-- The stored memberships, by user. -/
abbrev CipherMemberships := Table String CipherMembership

/-- The public badge: active and undisputed, or nothing. -/
structure UserCipher where
  number : Nat
  tier : CipherTier
  deriving DecidableEq

def CipherMembership.publicBadge (m : CipherMembership) : Option UserCipher :=
  if m.isActive && m.disputedOrders.isEmpty then some ⟨m.number, m.tier⟩ else none

/-- `false` when the user has a row; an error when the number is another row's. -/
def insertCipherMembership (m : CipherMembership) (memberships : CipherMemberships) :
    CipherMemberships × Result Bool :=
  if (memberships.get m.userId).isSome then (memberships, .ok false)
  else if memberships.values.any fun row => row.number == m.number then
    (memberships, .error (.databaseError "insert" "cipher_membership"))
  else (memberships.insert m.userId m, .ok true)

def fetchCipherMembershipByNumber (number : Nat) (memberships : CipherMemberships) :
    Option CipherMembership :=
  memberships.values.find? fun row => row.number == number

/-- Compare-and-swap on the version; the stored version becomes the next one. -/
def updateCipherMembershipIfVersion (m : CipherMembership) (expected : Nat)
    (memberships : CipherMemberships) : CipherMemberships × Result Bool :=
  match checkedSuccU64 expected with
  | none => (memberships, .error (.databaseError "replace" "cipher_membership"))
  | some next =>
    match memberships.get m.userId with
    | none => (memberships, .ok false)
    | some row =>
      if row.version ≠ expected then (memberships, .ok false)
      else if memberships.values.any fun row => row.userId != m.userId && row.number == m.number then
        (memberships, .error (.databaseError "replace" "cipher_membership"))
      else (memberships.insert m.userId { m with version := next }, .ok true)

def deleteCipherMembership (userId : String) (memberships : CipherMemberships) :
    CipherMemberships := memberships.erase userId

/-- Compare-and-swap delete. -/
def deleteCipherMembershipIfVersion (userId : String) (expected : Nat)
    (memberships : CipherMemberships) : CipherMemberships × Result Bool :=
  match memberships.get userId with
  | none => (memberships, .ok false)
  | some row =>
    if row.version ≠ expected then (memberships, .ok false)
    else (memberships.erase userId, .ok true)

theorem insertCipherMembership_cases (m : CipherMembership) (memberships : CipherMemberships) :
    ((insertCipherMembership m memberships).1 = memberships ∧
        (insertCipherMembership m memberships).2 ≠ .ok true) ∨
      (memberships.get m.userId = none ∧ (∀ row ∈ memberships.values, row.number ≠ m.number) ∧
        insertCipherMembership m memberships = (memberships.insert m.userId m, .ok true)) := by
  unfold insertCipherMembership
  split
  · exact .inl ⟨rfl, by simp⟩
  · rename_i hno
    split
    · exact .inl ⟨rfl, by simp⟩
    · rename_i hfr
      simp only [Bool.not_eq_true, Option.isSome_eq_false_iff, isNone_iff_eq_none] at hno
      simp only [any_eq_true, beq_iff_eq, not_exists, not_and] at hfr
      exact .inr ⟨hno, hfr, rfl⟩

theorem updateCipherMembershipIfVersion_cases (m : CipherMembership) (expected : Nat)
    (memberships : CipherMemberships) :
    ((updateCipherMembershipIfVersion m expected memberships).1 = memberships ∧
        (updateCipherMembershipIfVersion m expected memberships).2 ≠ .ok true) ∨
      ∃ row, memberships.get m.userId = some row ∧ row.version = expected ∧
        (∀ other ∈ memberships.values, other.userId ≠ m.userId → other.number ≠ m.number) ∧
        updateCipherMembershipIfVersion m expected memberships =
          (memberships.insert m.userId { m with version := expected + 1 }, .ok true) := by
  unfold updateCipherMembershipIfVersion
  cases hnx : checkedSuccU64 expected with
  | none => exact .inl ⟨rfl, by simp⟩
  | some next =>
    obtain ⟨-, rfl⟩ := checkedSuccU64_eq_some.mp hnx
    cases hg : memberships.get m.userId with
    | none => exact .inl ⟨rfl, by simp⟩
    | some row =>
      dsimp only
      split
      · exact .inl ⟨rfl, by simp⟩
      · rename_i hver
        split
        · exact .inl ⟨rfl, by simp⟩
        · rename_i hfr
          simp only [any_eq_true, and_eq_true, bne_iff_ne, beq_iff_eq, not_exists,
            not_and] at hfr
          exact .inr ⟨row, rfl, not_not.mp hver, hfr, rfl⟩

theorem deleteCipherMembershipIfVersion_cases (userId : String) (expected : Nat)
    (memberships : CipherMemberships) :
    ((deleteCipherMembershipIfVersion userId expected memberships).1 = memberships ∧
        (deleteCipherMembershipIfVersion userId expected memberships).2 ≠ .ok true) ∨
      ∃ row, memberships.get userId = some row ∧ row.version = expected ∧
        deleteCipherMembershipIfVersion userId expected memberships =
          (memberships.erase userId, .ok true) := by
  unfold deleteCipherMembershipIfVersion
  cases hg : memberships.get userId with
  | none => exact .inl ⟨rfl, by simp⟩
  | some row =>
    dsimp only
    split
    · exact .inl ⟨rfl, by simp⟩
    · rename_i hver
      exact .inr ⟨row, rfl, not_not.mp hver, rfl⟩

/-! ## Numbers -/

abbrev CipherNumbers := Table Nat CipherNumber

def fetchCipherNumberRowByOrder (orderId : String) (numbers : CipherNumbers) :
    Option CipherNumber :=
  numbers.values.find? fun row => row.orderId == some orderId

def fetchCipherNumberByOrder (orderId : String) (numbers : CipherNumbers) : Option Nat :=
  (fetchCipherNumberRowByOrder orderId numbers).map (·.number)

/-- The smallest number on sale that no order holds. -/
def smallestFree (cap : Nat) (numbers : CipherNumbers) : Option Nat :=
  ((numbers.values.filter fun row => decide (row.number ≤ cap) && row.orderId.isNone).map
    (·.number)).min?

/-- Claim a number for an order; an order that holds one keeps it. -/
def claimCipherNumber (orderId : String) (cap : Nat) (numbers : CipherNumbers) :
    CipherNumbers × Result (Option Nat) :=
  if cap = 0 then (numbers, .error (.databaseError "claim (cipher_cap is 0)" "cipher_numbers"))
  else
    match fetchCipherNumberByOrder orderId numbers with
    | some number => (numbers, .ok (some number))
    | none =>
      match smallestFree cap numbers with
      | none => (numbers, .ok none)
      | some number =>
        (numbers.modify number fun row => { row with orderId := some orderId }, .ok (some number))

/-- Record on the number row that its release was decided; the first time stays. -/
def markCipherNumberRelease (orderId : String) (at_ : Int) (numbers : CipherNumbers) :
    CipherNumbers × Bool :=
  match fetchCipherNumberRowByOrder orderId numbers with
  | some row =>
    (numbers.modify row.number fun row =>
      { row with releasePendingAt := some (row.releasePendingAt.getD at_) }, true)
  | none => (numbers, false)

/-- Drop a decided release; the number stays with its order. -/
def cancelCipherNumberRelease (orderId : String) (numbers : CipherNumbers) : CipherNumbers × Bool :=
  match fetchCipherNumberRowByOrder orderId numbers with
  | some row =>
    (numbers.modify row.number fun row => { row with releasePendingAt := none },
      row.releasePendingAt.isSome)
  | none => (numbers, false)

/-- Put an order's number back in the pool. -/
def releaseCipherNumber (orderId : String) (numbers : CipherNumbers) : CipherNumbers × Bool :=
  match fetchCipherNumberRowByOrder orderId numbers with
  | some row =>
    (numbers.modify row.number fun row => { row with orderId := none, releasePendingAt := none },
      true)
  | none => (numbers, false)

def countToU32 (count : Nat) : Result Nat :=
  if count < 2 ^ 32 then .ok count else .error (.databaseError "count" "cipher_numbers")

def countClaimedCipherNumbers (numbers : CipherNumbers) : Result Nat :=
  countToU32 (numbers.values.filter fun row => row.orderId.isSome).length

def countCipherNumbers (numbers : CipherNumbers) : Result Nat := countToU32 numbers.values.length

end SlogaBackend.Payments
