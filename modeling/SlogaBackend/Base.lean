import Mathlib.Data.String.Basic
import Mathlib.Data.List.Dedup
import Mathlib.Data.List.Sort
import SlogaBackend.Lib.Checks

/-!
# Errors, time and text

What every subsystem shares: the error values of `revolt_result`, timestamps,
and the few string operations the identifiers and the line formats are built
from.
-/

namespace SlogaBackend

/-- The `ErrorType` values the modelled functions answer with. -/
inductive Error where
  | notFound
  | notOwner
  | notSeated
  | invalidOperation
  | internalError
  | payloadTooLarge
  | failedValidation (error : String)
  | featureDisabled (feature : String)
  | databaseError (operation collection : String)
  | mlsCallFull (max : Nat)
  | seatCapReached (max : Nat)
  | deviceCapReached (max : Nat)
  | protectedChannelResecuring (reason : String)
  | seatListNamesRemovedUsers (users : List String)
  | isBot
  | paymentsDisabled
  | paymentPending
  | paymentProviderError
  | cipherSalesClosed
  | cipherSoldOut
  | cipherTierInvalid
  | cipherRegionUnavailable
  | protDisabled
  | protSalesClosed
  | protPackInvalid
  | protNotEligible
  | protRegionUnavailable
  | protWalletCap (max : Int)
  | insufficientProt (needed available : Int)
  | protIdempotencyConflict
  | missingPermission (permission : String)
  | notElevated
  | cannotGiveMissingPermissions
  /-- A `usize` subtraction below zero: a panic, or a wrapped value that the
  comparison after it refuses. -/
  | arithmeticOverflow
  deriving DecidableEq

/-- `revolt_result::Result`. -/
abbrev Result (α : Type) := Except Error α

/-! ## Time -/

/-- `iso8601_timestamp::Timestamp`, as nanoseconds since the Unix epoch. -/
abbrev Timestamp := Int

namespace Timestamp

/-- The first representable instant (the year -9999). -/
def minimum : Timestamp := -377705116800 * 1000000000

/-- The last representable instant (the end of the year 9999). -/
def maximum : Timestamp := 253402300800 * 1000000000 - 1

/-- A duration of whole seconds. -/
def seconds (n : Int) : Int := n * 1000000000

/-- A duration of whole days. -/
def days (n : Int) : Int := seconds (n * 86400)

/-- `checked_add`: `none` when the sum is not representable. -/
def checkedAdd (t : Timestamp) (duration : Int) : Option Timestamp :=
  if minimum ≤ t + duration ∧ t + duration ≤ maximum then some (t + duration) else none

/-- `checked_sub`: `none` when the difference is not representable. -/
def checkedSub (t : Timestamp) (duration : Int) : Option Timestamp := checkedAdd t (-duration)

variable {duration : Int}

theorem checkedAdd_eq_some {t r : Timestamp} (h : checkedAdd t duration = some r)
    : r = t + duration := by
  unfold checkedAdd at h
  split at h
  · exact (Option.some.inj h).symm
  · cases h

theorem checkedSub_eq_some {t r : Timestamp} (h : checkedSub t duration = some r)
    : r = t - duration :=
  (checkedAdd_eq_some h).trans (Int.sub_eq_add_neg).symm

end Timestamp

export Timestamp (seconds)

/-! ## Machine integers -/

def maxI64 : Int := 9223372036854775807

def minI64 : Int := -9223372036854775808

def maxU64 : Nat := 18446744073709551615

/-- A sum as an `i64`: `none` when it does not fit. -/
def toI64 (n : Int) : Option Int := if minI64 ≤ n ∧ n ≤ maxI64 then some n else none

/-- A sum as an `i64`: cut off at the ends when it does not fit. -/
def clampI64 (n : Int) : Int := max minI64 (min n maxI64)

theorem toI64_eq_some {n m : Int} : toI64 n = some m ↔ m = n ∧ minI64 ≤ n ∧ n ≤ maxI64 := by
  unfold toI64
  split
  · rename_i h
    simp [h, eq_comm]
  · rename_i h
    simp [h]

theorem clampI64_of_fits {n : Int} (hmin : minI64 ≤ n) (hmax : n ≤ maxI64) : clampI64 n = n := by
  unfold clampI64
  omega

/-- `u64::checked_add(1)`. -/
def checkedSuccU64 (n : Nat) : Option Nat := if n < maxU64 then some (n + 1) else none

theorem checkedSuccU64_eq_some {n m : Nat} : checkedSuccU64 n = some m ↔ n < maxU64 ∧ m = n + 1 := by
  unfold checkedSuccU64
  split
  · rename_i h
    simp [h, eq_comm]
  · rename_i h
    simp [h]

/-- `i64::checked_add(1)`. -/
def checkedSuccI64 (n : Int) : Option Int := if n < maxI64 then some (n + 1) else none

/-- `u32::checked_add(1)`. -/
def checkedSuccU32 (n : Nat) : Option Nat := if n + 1 < 2 ^ 32 then some (n + 1) else none

/-! ## Text -/

/-- `str::split(separator)`: the pieces between separators, at least one. -/
def splitChar (separator : Char) (s : String) : List String :=
  (s.toList.splitOn separator).map String.ofList

/-- `str::strip_prefix`. -/
def stripPrefix? (label : String) (s : String) : Option String :=
  if label.toList <+: s.toList then some (String.ofList (s.toList.drop label.toList.length))
  else none

/-- The elements of a `BTreeSet` built from a list, in iteration order. -/
def btreeSet (l : List String) : List String := (l.dedup).insertionSort (· ≤ ·)

theorem mem_btreeSet {l : List String} {a : String} : a ∈ btreeSet l ↔ a ∈ l := by
  unfold btreeSet
  rw [List.mem_insertionSort, List.mem_dedup]

theorem nodup_btreeSet (l : List String) : (btreeSet l).Nodup := by
  exact (List.perm_insertionSort _ _).nodup_iff.mpr l.nodup_dedup

/-- `format!("{left}:{right}")`, the shape of every composite id. -/
def joinColon (left right : String) : String := left ++ ":" ++ right

theorem toList_joinColon (left right : String) :
    (joinColon left right).toList = left.toList ++ ':' :: right.toList := by
  unfold joinColon
  rw [String.toList_append, String.toList_append, List.append_assoc]
  rfl

theorem eq_of_append_cons_eq {α : Type*} {x : α} :
    ∀ {a b c d : List α}, x ∉ a → x ∉ b → a ++ x :: c = b ++ x :: d → a = b ∧ c = d
  | [], [], _, _, _, _, heq => by simpa using heq
  | [], y :: b, _, _, _, hb, heq => by
    rw [List.nil_append, List.cons_append, List.cons.injEq] at heq
    exact absurd (heq.1 ▸ List.mem_cons_self) hb
  | y :: a, [], _, _, ha, _, heq => by
    rw [List.nil_append, List.cons_append, List.cons.injEq] at heq
    exact absurd (heq.1 ▸ List.mem_cons_self) ha
  | y :: a, z :: b, c, d, ha, hb, heq => by
    rw [List.cons_append, List.cons_append, List.cons.injEq] at heq
    obtain ⟨h1, h2⟩ := eq_of_append_cons_eq (fun hm => ha (List.mem_cons_of_mem _ hm))
      (fun hm => hb (List.mem_cons_of_mem _ hm)) heq.2
    exact ⟨by rw [heq.1, h1], h2⟩

variable {l r l' r' : String}

theorem joinColon_inj (hl : ':' ∉ l.toList) (hl' : ':' ∉ l'.toList)
    (h : joinColon l r = joinColon l' r') : l = l' ∧ r = r' := by
  have hls := congrArg String.toList h
  rw [toList_joinColon, toList_joinColon] at hls
  obtain ⟨h1, h2⟩ := eq_of_append_cons_eq hl hl' hls
  exact ⟨String.toList_inj.mp h1, String.toList_inj.mp h2⟩

theorem joinColon_inj_last (hr : ':' ∉ r.toList) (hr' : ':' ∉ r'.toList)
    (h : joinColon l r = joinColon l' r') : l = l' ∧ r = r' := by
  have hls := congrArg (fun s => s.toList.reverse) h
  simp only [toList_joinColon, List.reverse_append, List.reverse_cons, List.append_assoc,
    List.singleton_append] at hls
  obtain ⟨h1, h2⟩ := eq_of_append_cons_eq (by simpa using hr) (by simpa using hr') hls
  exact ⟨String.toList_inj.mp (List.reverse_injective h2),
    String.toList_inj.mp (List.reverse_injective h1)⟩

theorem colon_notMem_repr (n : Int) : ':' ∉ n.repr.toList := by
  have hdig : ∀ m : Nat, ':' ∉ (Nat.repr m).toList := by
    intro m hmem
    rw [Nat.toList_repr] at hmem
    exact absurd (Nat.isDigit_of_mem_toDigits (by decide) (by decide) hmem) (by decide)
  cases n with
  | ofNat m => exact hdig m
  | negSucc m =>
    show ':' ∉ ("-" ++ Nat.repr (m + 1)).toList
    rw [String.toList_append, List.mem_append, not_or]
    exact ⟨by decide, hdig _⟩

theorem joinColon_right_inj (h : joinColon l r = joinColon l r') : r = r' := by
  have hls := congrArg String.toList h
  rw [toList_joinColon, toList_joinColon] at hls
  have h1 := List.append_cancel_left hls
  exact String.toList_inj.mp (List.cons.inj h1).2

theorem natRepr_injective {m k : Nat} (h : m.repr = k.repr) : m = k := by
  have hdig := congrArg String.toList h
  rw [Nat.toList_repr, Nat.toList_repr] at hdig
  rw [← Nat.ofDigitChars_ten_toDigits (n := m), hdig, Nat.ofDigitChars_ten_toDigits]

theorem append_ne_append {label label' : String} (n : Nat) (h : n ≤ label.toList.length)
    (h' : n ≤ label'.toList.length) (hne : label.toList.take n ≠ label'.toList.take n)
    (rest rest' : String) : label ++ rest ≠ label' ++ rest' := by
  intro heq
  have hlis := congrArg (fun s => s.toList.take n) heq
  simp only [String.toList_append] at hlis
  rw [List.take_append_of_le_length h, List.take_append_of_le_length h'] at hlis
  exact hne hlis

end SlogaBackend
