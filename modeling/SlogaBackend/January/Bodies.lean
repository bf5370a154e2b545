import Mathlib.Data.List.DropRight
import SlogaBackend.January.Requests

/-!
# Reading bodies

`read_capped` takes the chunks that upstream hands over and holds at most `cap` bytes of them.
What it returns depends on the bytes alone, not on where upstream cuts them.
-/

namespace SlogaBackend.January

/-- What `read_capped` does with a body longer than its cap. -/
inductive Overflow where
  /-- Keep the first `cap` bytes and leave the rest unread. -/
  | truncate
  /-- Drop the response and fail with `FileTooLarge`. -/
  | error
  deriving DecidableEq

/-- Why a body was not read to its end. -/
inductive ReadError where
  | fileTooLarge (max : ℕ)
  | internalError
  /-- `cap - body.len()` is below zero. -/
  | underflow

/-- A response whose body is read, chunk by chunk; `none` is a chunk that fails. -/
structure Download where
  contentLength : Option HeaderValue
  chunks : List (Option (List UInt8))

/-- `parse::<u64>`: a sign is allowed, and no overflow. -/
def parseU64 (text : List Char) : Option ℕ :=
  let digits := if text.head? = some '+' then text.tail else text
  let n := digits.foldl (fun n digit => 10 * n + (digit.toNat - '0'.toNat)) 0
  if digits ≠ [] ∧ digits.all Char.isDigit ∧ n < 2 ^ 64 then some n else none

def Download.declared (response : Download) : Option ℕ := do
  let value ← response.contentLength
  let text ← value.toStr
  parseU64 ((text.toList.dropWhile Char.isWhitespace).rdropWhile Char.isWhitespace)

/-- The reading loop, `out` the bytes kept so far. -/
def readChunks (cap : ℕ) (mode : Overflow) :
    List (Option (List UInt8)) → List UInt8 → Except ReadError (List UInt8)
  | [], body => .ok body
  | none :: _, _ => .error .internalError
  | some chunk :: chunks, body =>
    if cap < body.length then .error .underflow
    else if cap - body.length < chunk.length then
      match mode with
      | .truncate => .ok (body ++ chunk.take (cap - body.length))
      | .error => .error (.fileTooLarge cap)
    else if mode = .truncate ∧ (body ++ chunk).length = cap then .ok (body ++ chunk)
    else readChunks cap mode chunks (body ++ chunk)

/-- In mode `error` a declared length above the cap is refused before any byte is read. -/
def readCapped (response : Download) (cap : ℕ) (mode : Overflow) :
    Except ReadError (List UInt8) :=
  if mode = .error ∧ response.declared.any (cap < ·) then .error (.fileTooLarge cap)
  else readChunks cap mode response.chunks []

section

variable {cap : ℕ} {mode : Overflow} {body : List UInt8} (hbody : body.length ≤ cap)
include hbody

theorem readChunks_truncate (chunks : List (List UInt8)) :
    readChunks cap .truncate (chunks.map some) body = .ok ((body ++ chunks.flatten).take cap) := by
  induction chunks generalizing body with
  | nil => simp [readChunks, hbody]
  | cons chunk chunks ih =>
    rw [map_cons, readChunks, if_neg (not_lt.mpr hbody), flatten_cons]
    by_cases hroom : cap - body.length < chunk.length
    · rw [if_pos hroom, List.take_append, List.take_of_length_le hbody,
        List.take_append_of_le_length hroom.le]
    · rw [if_neg hroom, ← append_assoc]
      split_ifs with hfull
      · rw [List.take_append_of_le_length hfull.2.ge, List.take_of_length_le hfull.2.le]
      · exact ih (by rw [length_append]; omega)

theorem readChunks_error (chunks : List (List UInt8)) :
    readChunks cap .error (chunks.map some) body =
      if cap < (body ++ chunks.flatten).length then .error (.fileTooLarge cap)
      else .ok (body ++ chunks.flatten) := by
  induction chunks generalizing body with
  | nil => simp [readChunks, hbody]
  | cons chunk chunks ih =>
    rw [map_cons, readChunks, if_neg (not_lt.mpr hbody), flatten_cons]
    by_cases hroom : cap - body.length < chunk.length
    · have hlong : cap < (body ++ (chunk ++ chunks.flatten)).length := by
        simp only [length_append]
        omega
      rw [if_pos hroom, if_pos hlong]
    · rw [if_neg hroom, if_neg (by simp), ← append_assoc]
      exact ih (by rw [length_append]; omega)

theorem readChunks_ne_underflow (chunks : List (Option (List UInt8))) :
    readChunks cap mode chunks body ≠ .error .underflow := by
  induction chunks generalizing body with
  | nil => simp [readChunks]
  | cons chunk chunks ih =>
    cases chunk with
    | none => simp [readChunks]
    | some chunk =>
      simp only [readChunks, if_neg (not_lt.mpr hbody)]
      split_ifs with hroom hfull
      · cases mode <;> simp
      · simp
      · exact ih (by rw [length_append]; omega)

end

/-- **What is read of a body.** Truncating keeps its first `cap` bytes, however it is cut; the
other mode returns it whole or refuses it; and the room that is left is never negative. -/
theorem readCapped_spec (cap : ℕ) :
    (∀ contentLength (chunks : List (List UInt8)),
      readCapped ⟨contentLength, chunks.map some⟩ cap .truncate = .ok (chunks.flatten.take cap)) ∧
    (∀ contentLength (chunks : List (List UInt8)),
      readCapped ⟨contentLength, chunks.map some⟩ cap .error =
      if (Download.mk contentLength []).declared.any (cap < ·) ∨ cap < chunks.flatten.length then
        .error (.fileTooLarge cap)
      else .ok chunks.flatten) ∧
    ∀ response mode, readCapped response cap mode ≠ .error .underflow := by
  refine ⟨fun contentLength chunks => ?_, fun contentLength chunks => ?_, fun response mode => ?_⟩
  · rw [readCapped, if_neg (by simp)]
    exact readChunks_truncate (List.length_nil.le.trans cap.zero_le) chunks
  · rw [readCapped, readChunks_error (List.length_nil.le.trans cap.zero_le), List.nil_append, ite_or]
    simp only [true_and]
    rfl
  · unfold readCapped
    split_ifs
    · simp
    · exact readChunks_ne_underflow (List.length_nil.le.trans cap.zero_le) _

end SlogaBackend.January
