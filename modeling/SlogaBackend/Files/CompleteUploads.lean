import SlogaBackend.Files.UploadParts

/-!
# The end of a chunked upload

`complete_upload` takes the composite hash of the recorded parts, moves the session to `Completing`
and then works from the session alone: an equal content that is stored already is taken over, and
otherwise the object is assembled and registered. Every step can be repeated after a crash.

`abort_upload` only marks the session. The sweep over the expired sessions removes what is left of
them.
-/

namespace SlogaBackend.Files

open Checks

def asI32 (n : Int) : Int := (n + 2 ^ 31) % 2 ^ 32 - 2 ^ 31

/-- The bytes of a 64-bit number, the least significant first. -/
def leBytes64 (n : Int) : Bytes :=
  (List.range 8).map fun i => UInt8.ofNat ((n % 2 ^ 64).toNat / 256 ^ i)

def textBytes (text : String) : Bytes := text.toUTF8.data.toList

/-- A number of decimal digits. -/
def parseDigits (digits : List Char) : Option ℕ :=
  if digits ≠ [] ∧ digits.all Char.isDigit then some (Nat.ofDigitChars 10 digits 0) else none

/-- `parse::<i32>`. -/
def parseI32 (key : String) : Option Int :=
  (match key.toList with
  | '-' :: digits => (parseDigits digits).map fun n => -(n : Int)
  | '+' :: digits => (parseDigits digits).map fun n => (n : Int)
  | digits => (parseDigits digits).map fun n => (n : Int)).filter
    fun n => minPartNumber ≤ n ∧ n ≤ maxPartNumber

namespace UploadSession

variable (session : UploadSession)

def partNumbers (totalParts : Int) : List Int := (List.range' 1 totalParts.toNat).map Int.ofNat

/-- The sum of the recorded sizes, or that a part is missing. -/
def sumSizes : List Int → Int → Checked (Option Int)
  | [], sum => .ok (some sum)
  | n :: rest, sum =>
    match session.parts.get (partKey (asI32 n)) with
    | some record => do
      let sum ← i64 (sum + record.size)
      sumSizes rest sum
    | none => .ok none

/-- Whether every part is recorded and the sizes sum to the declared one. -/
def isPartSetComplete : Checked Bool := do
  let totalParts ← session.totalParts
  if (session.parts.entries.length : Int) ≠ totalParts then
    return false
  else do
    let sum ← session.sumSizes (partNumbers totalParts) 0
    return sum = some session.totalSize

/-- The recorded parts by their numbers, ascending. -/
def completedPartList : List (Int × String) :=
  (session.parts.entries.filterMap fun entry =>
    (parseI32 entry.1).map fun n => (n, entry.2.etag)).insertionSort fun a b => a.1 ≤ b.1

def partHashes : List Int → Except StorageError Bytes
  | [] => .ok []
  | n :: rest => do
    let record ← okOr (session.parts.get (partKey (asI32 n))) .uploadIncomplete
    let hashes ← partHashes rest
    return textBytes record.sha256 ++ hashes

end UploadSession

/-- What a file of a layout is told apart by: the sizes and the hash of every part. -/
def compositeOf (p : Primitives) (chunkSize totalSize : Int) (hashes : Bytes) : String :=
  p.sha256 (textBytes "sloga-chunked-v2" ++ leBytes64 chunkSize ++ leBytes64 totalSize ++ hashes)

def compositeHash (p : Primitives) (session : UploadSession) : Except StorageError String := do
  let totalParts ← reportInternalError session.totalParts
  let hashes ← session.partHashes (UploadSession.partNumbers totalParts)
  return compositeOf p session.chunkSize session.totalSize hashes

/-- Who completes or aborts which session, and what becomes of the calls made for it. -/
structure SessionRequest where
  tag : Tag
  user : String
  sessionId : String
  /-- the id of the file that is minted -/
  fileId : String
  now : Timestamp
  fates : ℕ → Fate

/-- The type of the file: by its first bytes, or as declared. -/
def sniffMime (p : Primitives) (session : UploadSession) : String :=
  match p.decode session.headB64 with
  | some head =>
    if head ≠ [] ∧ p.determineMimeType head session.filename ≠ "application/octet-stream" then
      p.determineMimeType head session.filename
    else session.declaredContentType
  | none => session.declaredContentType

/-- A row that was found and whose object is stored. -/
def storedHash (answer : Except StorageError FileHash) : Option FileHash :=
  match answer with
  | .ok existing => if existing.iv ≠ "" then some existing else none
  | .error _ => none

variable (p : Primitives) (r : SessionRequest) (session : UploadSession)

def mintFile (row : FileHash) : Program String := do
  propagate (Call.insertAttachment
    (row.intoFile r.fileId session.tag session.filename r.user r.now))
  propagate (Call.setUploadSessionCompleted session.id r.fileId)
  return r.fileId

/-- The row of the assembled object. -/
def sessionHash (composite : String) : FileHash where
  id := composite
  processedHash := composite
  createdAt := r.now
  bucketId := session.bucketId
  path := session.path
  iv := session.noncePrefix
  formatVersion := some 2
  keyId := session.keyId
  metadata := .file
  contentType := sniffMime p session
  size := session.totalSize

/-- What follows an insert that was refused: the row of an equal content is adopted. -/
def adoptWinner (insertError : StorageError)
    (answer : Except StorageError FileHash) : Program String :=
  match storedHash answer with
  | some existing => do
    propagate (Call.deleteFromS3 session.bucketId session.path)
    mintFile r session existing
  | none => check (.error insertError)

def registerObject (composite : String) : Program String := do
  check (refuseIf (sniffMime p session ∈ p.blockedMimeTypes) .fileTypeNotAllowed)
  let inserted ← op (Call.insertAttachmentHash (sessionHash p r session composite))
  match inserted with
  | .ok _ => mintFile r session (sessionHash p r session composite)
  | .error insertError => do
    let answer ← op (Call.fetchAttachmentHash composite)
    adoptWinner r session insertError answer

/-- Assemble the object unless a previous attempt already did. -/
def assembleObject (composite : String) (assembled : Bool) : Program String :=
  if assembled then registerObject p r session composite
  else do
    propagate (Call.completeMultipartInS3 session.bucketId session.path session.s3UploadId
      session.completedPartList)
    registerObject p r session composite

/-- What follows the lookup of an equal content. -/
def takeOverOrAssemble (composite : String) (answer : Except StorageError FileHash) : Program String :=
  match storedHash answer with
  -- the parts that were just uploaded are redundant
  | some existing => do
    propagate (Call.abortMultipartInS3 session.bucketId session.path session.s3UploadId)
    mintFile r session existing
  | none => do
    let assembled ← propagate (Call.objectExistsInS3 session.bucketId session.path)
    assembleObject p r session composite assembled

def resolveCompleting :
    Program String := do
  let composite ← check (okOr session.compositeHash .internalError)
  let answer ← op (Call.fetchAttachmentHash composite)
  takeOverOrAssemble p r session composite answer

/-- What follows a compare-and-swap that was refused. -/
def joinWinner : Program String :=
  match session.state with
  | .completed => check (okOr session.fileId .internalError)
  | .completing => resolveCompleting p r session
  | _ => check (.error .uploadSessionConflict)

/-- What follows the compare-and-swap to `Completing`. -/
def resolveBegun (p : Primitives) (r : SessionRequest) : Option UploadSession → Program String
  | some session => resolveCompleting p r session
  | none => do
    let session ← fetchOwnedSession r.sessionId r.user
    joinWinner p r session

/-- The composite hash of a session whose parts are all recorded. -/
def completeHash (p : Primitives) (session : UploadSession) : Except StorageError String := do
  let complete ← reportInternalError session.isPartSetComplete
  refuseIf (complete = false) .uploadIncomplete
  compositeHash p session

def completeFetched :
    Program String :=
  match session.state with
  -- a retry whose first response got lost
  | .completed => check (okOr session.fileId .internalError)
  | .aborted => check (.error .notFound)
  | .completing => resolveCompleting p r session
  | .pending => do
    let composite ← check (completeHash p session)
    let begun ← propagate (Call.beginUploadSessionComplete session.id composite)
    resolveBegun p r begun

/-- Assemble the upload and mint the file. -/
def completeUpload (p : Primitives) (r : SessionRequest) : Program String := do
  check (assertAttachmentsTag r.tag)
  let session ← fetchOwnedSession r.sessionId r.user
  completeFetched p r session

def abortUpload (r : SessionRequest) : Program Unit := do
  check (assertAttachmentsTag r.tag)
  let session ← fetchOwnedSession r.sessionId r.user
  let aborted ← propagate (Call.setUploadSessionAborted session.id)
  check (refuseIf (aborted = false ∧ session.state ≠ .aborted) .uploadSessionConflict)

/-! ## The sweep -/

/-- Whether the row of a session's content is there; a lookup that fails finds none. -/
def isHashOwned (session : UploadSession) : Program Bool :=
  match session.compositeHash with
  | some composite => do
    let answer ← op (Call.fetchAttachmentHash composite)
    return (storedHash answer).isSome
  | none => return false

/-- Drop the multipart upload of a session, then the session. -/
def dropUpload (session : UploadSession) : Program Unit := do
  propagate (Call.abortMultipartInS3 session.bucketId session.path session.s3UploadId)
  propagate (Call.deleteUploadSession session.id)

/-- What follows the question whether an object nobody registered is there. -/
def dropObject (session : UploadSession) (assembled : Bool) : Program Unit :=
  if assembled then do
    propagate (Call.deleteFromS3 session.bucketId session.path)
    dropUpload session
  else dropUpload session

/-- What follows the lookup of the hash. -/
def dropUnowned (session : UploadSession) (hashOwned : Bool) : Program Unit :=
  if hashOwned then propagate (Call.deleteUploadSession session.id)
  else do
    let assembled ← propagate (Call.objectExistsInS3 session.bucketId session.path)
    dropObject session assembled

/-- Reap one expired session. -/
def resolve (session : UploadSession) : Program Unit :=
  match session.state with
  | .completed => propagate (Call.deleteUploadSession session.id)
  | .completing => do
    let hashOwned ← isHashOwned session
    dropUnowned session hashOwned
  | .pending | .aborted => dropUpload session

/-- Reap the sessions of a list; one that fails is left for the next sweep. -/
def resolveAll : List UploadSession → Program Unit
  | [] => return ()
  | session :: rest => (resolve session).andAfter (resolveAll rest)

/-- One pass of the sweep. -/
def pruneUploadSessions (now : Timestamp) : Program Unit := do
  let expired ← propagate (Call.fetchExpiredUploadSessions now)
  resolveAll expired

end SlogaBackend.Files
