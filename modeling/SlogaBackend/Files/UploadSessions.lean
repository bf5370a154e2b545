import SlogaBackend.Base
import SlogaBackend.Lib.Table
import SlogaBackend.Files.StreamCipher

/-!
# Upload sessions

A chunked upload is a session row. The parts that were stored are recorded in it, and so are the
claims of the requests that are storing one. The size of every part follows from the declared size
and the part size; both are 64-bit, and a sum that does not fit is a panic.
-/

namespace SlogaBackend.Files

/-- How long a part claim may sit before another request may steal it, in minutes. -/
def uploadPartClaimTtlMinutes : Int := 10

/-- Plaintext bytes per client-uploaded chunk. -/
def chunkSizeBytes : Int := 32 * 1024 * 1024

/-- Plaintext bytes per segment. -/
def streamSegmentSize : ℕ := 1024 * 1024

def maxPartNumber : Int := 2147483647

/-- A sum or a product of type `i64`. -/
def i64 (n : Int) : Checked Int := if minI64 ≤ n ∧ n ≤ maxI64 then .ok n else .panic

theorem i64_of_fits {n : Int} (hmin : minI64 ≤ n) (hmax : n ≤ maxI64) : i64 n = .ok n :=
  if_pos ⟨hmin, hmax⟩

inductive UploadSessionState where
  | pending
  | completing
  | completed
  | aborted
  deriving DecidableEq

structure UploadPartRecord where
  size : Int
  etag : String
  sha256 : String

structure UploadSession where
  id : String
  uploaderId : String
  tag : String
  filename : String
  declaredContentType : String
  totalSize : Int
  chunkSize : Int
  bucketId : String
  path : String
  s3UploadId : String
  noncePrefix : String
  keyId : Option String
  parts : Table String UploadPartRecord
  inFlight : Table String Timestamp
  headB64 : String
  state : UploadSessionState
  compositeHash : Option String
  fileId : Option String
  createdAt : Timestamp
  expiresAt : Timestamp

namespace UploadSession

def partKey (partNumber : Int) : String := partNumber.repr

variable (session : UploadSession)

/-- Total number of parts the declared size divides into. -/
def totalParts : Checked Int := do
  let sum ← i64 (session.totalSize + session.chunkSize)
  let rounded ← i64 (sum - 1)
  if session.chunkSize = 0 then .panic else i64 (rounded.tdiv session.chunkSize)

/-- The exact plaintext size a part must have: full chunks except the tail. -/
def expectedPartSize (partNumber : Int) : Checked (Option Int) := do
  let totalParts ← session.totalParts
  if partNumber < 1 ∨ totalParts < partNumber then
    return none
  else if partNumber = totalParts then do
    let full ← i64 ((totalParts - 1) * session.chunkSize)
    let tail ← i64 (session.totalSize - full)
    return some tail
  else
    return some session.chunkSize

/-! ## Sizes -/

/-- Sizes that fit: the sum that `totalParts` forms is an `i64`. -/
structure Sized (total partSize : ℕ) : Prop where
  totalSize_eq : session.totalSize = total
  chunkSize_eq : session.chunkSize = partSize
  fits : session.totalSize + session.chunkSize ≤ maxI64

variable {session} {total partSize : ℕ}

/-- **The number of parts** is the size divided by the part size, rounded up. -/
theorem totalParts_eq (h : session.Sized total partSize) (hpr : 0 < partSize) :
    session.totalParts = .ok ((total + (partSize - 1)) / partSize : ℕ) := by
  have hft := h.fits
  have hmin : minI64 ≤ 0 := by decide
  rw [h.totalSize_eq, h.chunkSize_eq] at hft
  have hsum : i64 ((total : Int) + partSize) = .ok ((total : Int) + partSize) :=
    i64_of_fits (by omega) hft
  have hcs : (total : Int) + partSize - 1 = ((total + (partSize - 1) : ℕ) : Int) := by omega
  have hroun : i64 ((total : Int) + partSize - 1) = .ok ((total : Int) + partSize - 1) :=
    i64_of_fits (by omega) (by omega)
  obtain ⟨parts, hpar⟩ : ∃ parts, parts = (total + (partSize - 1)) / partSize := ⟨_, rfl⟩
  have hle : parts ≤ total + (partSize - 1) := hpar ▸ Nat.div_le_self _ _
  have hquot : i64 (parts : Int) = .ok (parts : Int) := i64_of_fits (by omega) (by omega)
  unfold totalParts
  rw [h.totalSize_eq, h.chunkSize_eq, hsum, ok_bind, hroun, ok_bind,
    if_neg (by omega), hcs, ← Int.ofNat_tdiv, ← hpar, hquot]

theorem expectedPartSize_full {parts number : ℕ} (h : session.Sized total partSize)
    (hpar : session.totalParts = .ok (parts : Int)) (hnum : 1 ≤ number) (hlt : number < parts)
    : session.expectedPartSize number = .ok (some (partSize : Int)) := by
  unfold expectedPartSize
  rw [hpar, ok_bind, if_neg (by omega), if_neg (by omega), h.chunkSize_eq]
  rfl

theorem expectedPartSize_last {number tail : ℕ} (h : session.Sized total partSize)
    (hpar : session.totalParts = .ok (number : Int)) (hnum : 1 ≤ number)
    (htot : total = (number - 1) * partSize + tail) :
    session.expectedPartSize number = .ok (some (tail : Int)) := by
  have hft := h.fits
  have hmin : minI64 ≤ 0 := by decide
  rw [h.totalSize_eq, h.chunkSize_eq] at hft
  have hcs : ((number : Int) - 1) * partSize = (((number - 1) * partSize : ℕ) : Int) := by
    rw [Int.natCast_mul, Int.natCast_sub hnum, Int.natCast_one]
  obtain ⟨full, hfl⟩ : ∃ full, full = (number - 1) * partSize := ⟨_, rfl⟩
  rw [← hfl] at htot hcs
  unfold expectedPartSize
  rw [hpar, ok_bind, if_neg (by omega), if_pos rfl, h.chunkSize_eq, hcs,
    i64_of_fits (by omega) (by omega), ok_bind, h.totalSize_eq,
    i64_of_fits (by omega) (by omega), ok_bind]
  have htl : (total : Int) - full = tail := by omega
  rw [htl]
  rfl

end UploadSession

end SlogaBackend.Files
