import SlogaBackend.Files.Storage

/-!
# Parts of a chunked upload

`upload_part` takes a claim on the part, seals it, stores it and records it. The record carries the
hash of the plaintext, and a part that is recorded is not sealed again. The claim is released when
the storing fails, and it can be taken over when it is old.
-/

namespace SlogaBackend.Files

open Checks Segments

def minPartNumber : Int := -2147483648

/-- A part that is uploaded, and what becomes of the calls made for it. -/
structure PartRequest where
  tag : Tag
  user : String
  sessionId : String
  partNumber : Int
  body : Bytes
  now : Timestamp
  fates : ℕ → Fate
  fits : minPartNumber ≤ partNumber ∧ partNumber ≤ maxPartNumber

def i32AsU32 (n : Int) : ℕ := (n % 2 ^ 32).toNat

/-- How much of the first part is kept to tell its type by. -/
def headSniffSize : ℕ := 8 * 1024

/-- The layout of the stored files. -/
def fromCipher (cipher : Aead)
    (noncePrefix : { bytes : Bytes // bytes.length = streamNoncePrefixSize }) :
    SegmentedStreamCipher :=
  (SegmentedStreamCipher.withLayout cipher noncePrefix streamSegmentSize
    chunkSizeBytes.toNat).get rfl

/-- The cipher a session's parts are sealed under. -/
def sessionCipher (p : Primitives) (session : UploadSession) :
    Except StorageError SegmentedStreamCipher := do
  let prefixBytes ← okOr (p.decode session.noncePrefix) .internalError
  if h : prefixBytes.length = streamNoncePrefixSize then do
    let cipher ← okOr (p.cipher session.keyId) .internalError
    return fromCipher cipher ⟨prefixBytes, h⟩
  else .error .internalError

def sealPart (p : Primitives) (session : UploadSession) (partNumber : Int) (body : Bytes) :
    Except StorageError Bytes := do
  let cipher ← sessionCipher p session
  let totalParts ← reportInternalError session.totalParts
  reportInternalError (cipher.encryptPart (i32AsU32 partNumber) (partNumber == totalParts) body)

namespace PartRequest

variable (p : Primitives) (r : PartRequest)

def partKey : String := UploadSession.partKey r.partNumber

/-- What is checked of the session before the part is claimed. -/
def checkSession (session : UploadSession) : Except StorageError Unit := do
  refuseIf (session.state ≠ .pending) .uploadSessionConflict
  refuseIf (session.chunkSize ≠ chunkSizeBytes) .uploadSessionConflict
  let expected ← reportInternalError (session.expectedPartSize r.partNumber)
  let expectedSize ← okOr expected .invalidOperation
  refuseIf ((r.body.length : Int) ≠ expectedSize) .invalidOperation

/-- A recorded part is accepted again with the same content only. -/
def checkRecorded (recorded : UploadPartRecord) : Except StorageError Unit :=
  refuseIf (recorded.sha256 ≠ p.sha256 r.body) .uploadSessionConflict

def record (etag : String) : UploadPartRecord where
  size := r.body.length
  etag := etag
  sha256 := p.sha256 r.body

def headB64 : Option String :=
  if r.partNumber = 1 then some (p.encode (r.body.take headSniffSize)) else none

end PartRequest

def recordPart (p : Primitives) (r : PartRequest) (session : UploadSession) (etag : String) :
    Program Unit := do
  let recorded ← propagate
    (Call.recordUploadPart session.id r.partKey (r.record p etag) (r.headB64 p))
  check (refuseIf (recorded = false) .uploadSessionConflict)

/-- Encrypt, store and record one claimed part. -/
def storePart (p : Primitives) (r : PartRequest) (session : UploadSession) : Program Unit := do
  let ciphertext ← check (sealPart p session r.partNumber r.body)
  let etag ← propagate (Call.uploadPartToS3 session.bucketId session.path session.s3UploadId
    r.partNumber ciphertext)
  recordPart p r session etag

def storeClaimed (p : Primitives) (r : PartRequest) : Option UploadSession → Program Unit
  | none => check (.error .uploadSessionConflict)
  | some session =>
    match session.parts.get r.partKey with
    -- another request has recorded the part between the fetch and the claim
    | some recorded => do
      propagate (Call.releaseUploadPartClaim r.sessionId r.partKey)
      check (r.checkRecorded p recorded)
    | none => (storePart p r session).onError (Call.releaseUploadPartClaim r.sessionId r.partKey)

/-- What follows the fetch. -/
def claimPart (p : Primitives) (r : PartRequest) (session : UploadSession) : Program Unit := do
  check (r.checkSession session)
  match session.parts.get r.partKey with
  | some recorded => check (r.checkRecorded p recorded)
  | none => do
    let claimed ← propagate (Call.tryClaimUploadPart r.sessionId r.partKey r.now
      (r.now - seconds (uploadPartClaimTtlMinutes * 60)))
    storeClaimed p r claimed

def uploadPart (p : Primitives) (r : PartRequest) : Program Unit := do
  check (assertAttachmentsTag r.tag)
  let session ← fetchOwnedSession r.sessionId r.user
  claimPart p r session

end SlogaBackend.Files
