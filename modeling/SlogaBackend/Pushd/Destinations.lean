import SlogaBackend.Pushd.UpLimits

/-!
# A destination's entry

What is kept of a destination: its two buckets, the number of sends in flight, and who sent to it
and was rejected. A rejection gives back the reservation of its send and spends a token; one that
pauses sets the budget far below zero.

* `Dest.rejectOne_tokens_le`: a rejection never adds to the budget.
* `Dest.rejectOne_spends`: what is in flight and what is left of the budget, whichever is more,
  goes down by one with every rejection.
* `Dest.rejectOne_pauses`: a pause leaves the budget at or below what the pause takes to refill.
-/

namespace SlogaBackend.Pushd

/-- What a rejection did to its destination's budget. -/
inductive Rejected where
  | counted
  /-- This one spent it. -/
  | paused (top : List Offender) (others : ℕ)

/-- The pause report, which empties the table. -/
def pauseReport (offenders : List Offender) : Rejected :=
  let (top, others) := takeTop offenders
  .paused top others

structure Dest where
  send : TokenBucket
  reject : TokenBucket
  /-- Admitted sends not yet completed. -/
  inFlight : ℕ
  offenders : List Offender
  /-- Admitted sends by user since the table was last asked for. -/
  senders : List Offender
  /-- The call counter when the entry was last used. -/
  touched : ℕ
  /-- Which entry this is among those that were created. -/
  generation : ℕ

namespace Dest

def new (limits : DestLimits) (now : Instant) (generation : ℕ) : Dest where
  send := .full limits.send now
  reject := .full limits.reject now
  inFlight := 0
  offenders := []
  senders := []
  touched := 0
  generation

def refill (dest : Dest) (limits : DestLimits) (now : Instant) : Dest :=
  { dest with
    send := dest.send.refill limits.send now
    reject := dest.reject.refill limits.reject now }

def paused (dest : Dest) : Bool := dest.reject.tokens < 1

/-- Evicting it would hand back a spent budget or lose a reservation. -/
def isProtected (dest : Dest) : Bool := dest.paused || 0 < dest.inFlight

/-- It would come back the same. -/
def idleFull (dest : Dest) (limits : DestLimits) : Bool :=
  dest.send.isFull limits.send && dest.reject.isFull limits.reject && dest.inFlight == 0 &&
    !dest.paused

def fullness (dest : Dest) (limits : DestLimits) : ℚ :=
  min (dest.send.fullness limits.send) (dest.reject.fullness limits.reject)

def release (dest : Dest) : Dest := { dest with inFlight := dest.inFlight - 1 }

/-- What a rejection leaves of the tokens. -/
def spent (limits : DestLimits) (pause : Bool) (before : ℚ) : ℚ :=
  let spent := max (before - 1) (min before 0)
  if pause then min spent (-(limits.pauseOn503Secs * limits.rejectRefillPerSec)) else spent

/-- Release a reservation as a rejection of the user's send. -/
def rejectOne (dest : Dest) (limits : DestLimits) (userId : String) (pause : Bool)
    (now : Instant) : Dest × Rejected :=
  let dest := dest.release
  let reject := dest.reject.refill limits.reject now
  let before := reject.tokens
  let reject := { reject with tokens := spent limits pause before }
  let offenders := recordOffender dest.offenders userId
  -- the pause is reported by the rejection that starts it only
  if 1 ≤ before ∧ reject.tokens < 1 then
    ({ dest with reject, offenders := [] }, pauseReport offenders)
  else ({ dest with reject, offenders }, .counted)

/-! ## What a rejection costs -/

variable (dest : Dest) (limits : DestLimits) (userId : String) (pause : Bool) (now : Instant)

/-- The rejections it would bear at the instant. -/
def budgetAt (t : Instant) : ℚ := dest.reject.levelAt limits.reject t

@[simp] theorem refill_inFlight : (dest.refill limits now).inFlight = dest.inFlight := rfl

@[simp] theorem release_inFlight : dest.release.inFlight = dest.inFlight - 1 := rfl

@[simp] theorem release_generation : dest.release.generation = dest.generation := rfl

theorem rejectOne_reject : (dest.rejectOne limits userId pause now).1.reject =
      { dest.reject.refill limits.reject now with
        tokens := spent limits pause (dest.budgetAt limits now) } := by
  unfold rejectOne
  dsimp only
  split <;> rfl

theorem rejectOne_send : (dest.rejectOne limits userId pause now).1.send = dest.send := by
  unfold rejectOne
  dsimp only
  split <;> rfl

theorem rejectOne_inFlight :
    (dest.rejectOne limits userId pause now).1.inFlight = dest.inFlight - 1 := by
  unfold rejectOne
  dsimp only
  split <;> rfl

theorem rejectOne_generation :
    (dest.rejectOne limits userId pause now).1.generation = dest.generation := by
  unfold rejectOne
  dsimp only
  split <;> rfl

theorem spent_le (before : ℚ) : spent limits pause before ≤ max (before - 1) (min before 0) := by
  cases pause with
  | true => exact min_le_left _ _
  | false => exact le_rfl

theorem spent_le_self (before : ℚ) : spent limits pause before ≤ before :=
  (spent_le limits pause before).trans (max_le (by linarith) (min_le_left _ _))

variable {dest limits userId pause now}

section

variable (userId : String) (pause : Bool)

theorem budgetAt_rejectOne : (dest.rejectOne limits userId pause now).1.budgetAt limits now =
      spent limits pause (dest.budgetAt limits now) := by
  unfold budgetAt
  rw [rejectOne_reject, TokenBucket.levelAt_of_le]
  · exact min_eq_left ((spent_le_self _ _ _).trans (TokenBucket.levelAt_le_burst _ _ _))
  · exact TokenBucket.le_refill_last dest.reject limits.reject now

theorem rejectOne_tokens_le :
    (dest.rejectOne limits userId pause now).1.budgetAt limits now ≤ dest.budgetAt limits now := by
  rw [budgetAt_rejectOne]
  exact spent_le_self _ _ _

theorem budgetAt_rejectOne_le {t : Instant} (h : now ≤ t) :
    (dest.rejectOne limits userId pause now).1.budgetAt limits t ≤ dest.budgetAt limits t := by
  have htok : spent limits pause (dest.budgetAt limits now) ≤
      (dest.reject.refill limits.reject now).tokens := spent_le_self limits pause _
  have href : (dest.reject.refill limits.reject now).levelAt limits.reject t ≤
      dest.budgetAt limits t := TokenBucket.levelAt_refill_le dest.reject h
  unfold budgetAt at htok href ⊢
  rw [rejectOne_reject]
  generalize dest.reject.refill limits.reject now = refilled at htok href ⊢
  refine le_trans ?_ href
  exact refilled.levelAt_with_tokens_le htok t

/-- **A rejection is paid for.** One that costs no whole token was covered by a reservation. -/
theorem rejectOne_spends (hlv : 0 < dest.inFlight) :
    max ((dest.rejectOne limits userId pause now).1.inFlight : ℚ)
        ((dest.rejectOne limits userId pause now).1.budgetAt limits now) + 1 ≤
      max (dest.inFlight : ℚ) (dest.budgetAt limits now) := by
  have hfew : ((dest.inFlight - 1 : ℕ) : ℚ) = (dest.inFlight : ℚ) - 1 := by
    rw [Nat.cast_sub hlv, Nat.cast_one]
  have hone : (1 : ℚ) ≤ dest.inFlight := by exact_mod_cast hlv
  have hspen := spent_le limits pause (dest.budgetAt limits now)
  rw [rejectOne_inFlight, budgetAt_rejectOne, hfew]
  generalize dest.budgetAt limits now = budget at hspen ⊢
  -- below one token the reservation alone pays
  have hboun : max (budget - 1) (min budget 0) ≤ max ((dest.inFlight : ℚ) - 1) (budget - 1) := by
    refine max_le (le_max_right _ _) ?_
    exact (min_le_right _ _).trans ((sub_nonneg.mpr hone).trans (le_max_left _ _))
  have hlf := le_max_left (dest.inFlight : ℚ) budget
  have hright := le_max_right (dest.inFlight : ℚ) budget
  have hmax : max ((dest.inFlight : ℚ) - 1) (spent limits pause budget) ≤
      max ((dest.inFlight : ℚ) - 1) (budget - 1) :=
    max_le (le_max_left _ _) (hspen.trans hboun)
  have hms : max ((dest.inFlight : ℚ) - 1) (budget - 1) ≤ max (dest.inFlight : ℚ) budget - 1 :=
    max_le (by linarith) (by linarith)
  linarith

end

theorem rejectOne_pauses (userId : String) :
    (dest.rejectOne limits userId true now).1.budgetAt limits now ≤
      -(limits.pauseOn503Secs * limits.rejectRefillPerSec) := by
  rw [budgetAt_rejectOne]
  exact min_le_right _ _

end Dest
end SlogaBackend.Pushd
