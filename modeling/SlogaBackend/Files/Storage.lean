import SlogaBackend.Files.SegmentedStorage
import SlogaBackend.Lib.Faults

/-!
# File storage

What the requests of the file service share: the rows of the database, the object store with its
multipart uploads, and the calls to both. A call is atomic. Every one of them may fail; a failure
of the object store is reported as an internal error.

Hashes, ciphers and entity tags are parameters (`Primitives`). A map yields its rows in an order
nobody promises, so the order is one of them.
-/

namespace SlogaBackend.Files

open Checks

/-- The `ErrorType` values that the file service answers with; a request that panics has no answer. -/
inductive StorageError where
  | notFound
  | databaseError
  | internalError
  | invalidOperation
  | fileTypeNotAllowed
  | uploadIncomplete
  | uploadSessionConflict
  | panicked

/-- `report_internal_error!`: an error is an internal error, a panic ends the request. -/
def reportInternalError {α : Type} : Checked α → Except StorageError α
  | .ok a => .ok a
  | .err _ => .error .internalError
  | .panic | .spin => .error .panicked

theorem reportInternalError_eq_ok {α : Type} {computed : Checked α} {a : α} :
    reportInternalError computed = .ok a ↔ computed = .ok a := by
  cases computed <;> simp [reportInternalError]

/-! ## Rows -/

inductive Metadata where
  | file
  | text
  | image (width height : Int) (thumbhash : Option Bytes) (animated : Option Bool)
  | video (width height : Int)
  | audio

/-- A stored content: where its object is and how it is sealed. -/
structure FileHash where
  id : String
  processedHash : String
  createdAt : Timestamp
  bucketId : String
  path : String
  /-- empty while the object is not stored -/
  iv : String
  formatVersion : Option ℕ
  keyId : Option String
  metadata : Metadata
  contentType : String
  size : Int

inductive FileUsedForType where
  | message
  | serverBanner
  | emoji
  | sticker
  | soundboardSound
  | userAvatar
  | webhookAvatar
  | userProfileBackground
  | legacyGroupIcon
  | channelIcon
  | serverIcon
  | roleIcon
  | calendarEvent
  | userBadge
  deriving DecidableEq

structure FileUsedFor where
  objectType : FileUsedForType
  id : String
  deriving DecidableEq

structure File where
  id : String
  tag : String
  filename : String
  hash : Option String
  uploadedAt : Option Timestamp
  uploaderId : Option String
  usedFor : Option FileUsedFor
  deleted : Option Bool
  reported : Option Bool
  metadata : Metadata
  contentType : String
  size : Int

def FileHash.intoFile (row : FileHash) (id tag filename uploaderId : String) (now : Timestamp) :
    File where
  id := id
  tag := tag
  filename := filename
  hash := some row.id
  uploadedAt := some now
  uploaderId := some uploaderId
  usedFor := none
  deleted := none
  reported := none
  metadata := row.metadata
  contentType := row.contentType
  size := row.size

/-! ## The stores -/

/-- What the code takes from elsewhere. -/
structure Primitives where
  /-- a SHA-256 digest, in hexadecimal digits -/
  sha256 : Bytes → String
  /-- `BASE64_STANDARD.encode` -/
  encode : Bytes → String
  /-- `BASE64_STANDARD.decode` -/
  decode : String → Option Bytes
  /-- the file key of an id -/
  cipher : Option String → Option Aead
  /-- the id of the primary file key -/
  primaryId : Option String
  /-- the entity tag that a put gets, by the number of puts before it -/
  etag : ℕ → Bytes → String
  /-- the type of a file with these first bytes and this name -/
  determineMimeType : Bytes → String → String
  /-- `files.blocked_mime_types` -/
  blockedMimeTypes : List String
  /-- the order in which a map yields its rows -/
  order : {α : Type} → List α → List α
  decode_encode : ∀ bytes, decode (encode bytes) = some bytes
  /-- an entity tag stands for one content -/
  etag_inj : ∀ {n m body body'}, etag n body = etag m body' → body = body'
  order_perm : ∀ {α : Type} (rows : List α), (order rows).Perm rows

/-- One part of a multipart upload, as it was put last. -/
structure StoredPart where
  etag : String
  body : Bytes

/-- A multipart upload that is open. -/
structure Multipart where
  bucketId : String
  path : String
  parts : Table Int StoredPart

structure Store where
  uploadSessions : Table String UploadSession
  fileHashes : Table String FileHash
  files : Table String File
  /-- objects by bucket and path -/
  objects : Table (String × String) Bytes
  /-- open multipart uploads by upload id -/
  multiparts : Table String Multipart
  /-- how many parts were put -/
  puts : ℕ

/-! ## Upload sessions -/

namespace UploadSession

/-- The claim on a part, unless the session is not pending or a claim stands that is not stale. -/
def claimPart (session : UploadSession) (partKey : String) (claimedAt staleCutoff : Timestamp) :
    Option UploadSession :=
  if session.state = .pending ∧
      ∀ existing ∈ session.inFlight.get partKey, existing < staleCutoff then
    some { session with inFlight := session.inFlight.insert partKey claimedAt }
  else none

def recordPart (session : UploadSession) (partKey : String) (record : UploadPartRecord)
    (headB64 : Option String) : Option UploadSession :=
  if session.state = .pending then
    some { session with
      parts := session.parts.insert partKey record
      inFlight := session.inFlight.erase partKey
      headB64 := headB64.getD session.headB64 }
  else none

def releasePart (session : UploadSession) (partKey : String) : UploadSession :=
  { session with inFlight := session.inFlight.erase partKey }

/-- `Pending` to `Completing`, when no part is in flight. -/
def beginComplete (session : UploadSession) (compositeHash : String) : Option UploadSession :=
  if session.state = .pending ∧ session.inFlight = ∅ then
    some { session with state := .completing, compositeHash := some compositeHash }
  else none

def revertToPending (session : UploadSession) : Option UploadSession :=
  if session.state = .completing then
    some { session with state := .pending, compositeHash := none }
  else none

def setCompleted (session : UploadSession) (fileId : String) : UploadSession :=
  { session with state := .completed, fileId := some fileId }

def setAborted (session : UploadSession) : Option UploadSession :=
  if session.state = .pending then some { session with state := .aborted } else none

end UploadSession

/-! ## Calls -/

inductive Call where
  | fetchUploadSession (id : String)
  | tryClaimUploadPart (id partKey : String) (claimedAt staleCutoff : Timestamp)
  | recordUploadPart (id partKey : String) (record : UploadPartRecord) (headB64 : Option String)
  | releaseUploadPartClaim (id partKey : String)
  | beginUploadSessionComplete (id compositeHash : String)
  | revertUploadSessionToPending (id : String)
  | setUploadSessionCompleted (id fileId : String)
  | setUploadSessionAborted (id : String)
  | fetchExpiredUploadSessions (before : Timestamp)
  | deleteUploadSession (id : String)
  | fetchAttachmentHash (hash : String)
  | insertAttachmentHash (row : FileHash)
  | setAttachmentHashStorage (hash path iv : String) (keyId : Option String)
  | deleteAttachmentHash (id : String)
  | insertAttachment (file : File)
  | markAttachmentAsDeleted (id : String)
  | fetchDeletedAttachments
  | countFileHashReferences (hash : String)
  | deleteAttachment (id : String)
  | uploadPartToS3 (bucketId path uploadId : String) (partNumber : Int) (ciphertext : Bytes)
  | completeMultipartInS3 (bucketId path uploadId : String) (parts : List (Int × String))
  | abortMultipartInS3 (bucketId path uploadId : String)
  | objectExistsInS3 (bucketId path : String)
  | uploadToS3 (bucketId path : String) (nonce plaintext : Bytes)
  | deleteFromS3 (bucketId path : String)

/-- What a call that succeeds answers. -/
abbrev Reply : Call → Type
  | .fetchUploadSession _ => UploadSession
  | .tryClaimUploadPart .. => Option UploadSession
  | .recordUploadPart .. => Bool
  | .releaseUploadPartClaim .. => Unit
  | .beginUploadSessionComplete .. => Option UploadSession
  | .revertUploadSessionToPending _ => Bool
  | .setUploadSessionCompleted .. => Unit
  | .setUploadSessionAborted _ => Bool
  | .fetchExpiredUploadSessions _ => List UploadSession
  | .deleteUploadSession _ => Unit
  | .fetchAttachmentHash _ => FileHash
  | .insertAttachmentHash _ => Unit
  | .setAttachmentHashStorage .. => Unit
  | .deleteAttachmentHash _ => Unit
  | .insertAttachment _ => Unit
  | .markAttachmentAsDeleted _ => Unit
  | .fetchDeletedAttachments => List File
  | .countFileHashReferences _ => ℕ
  | .deleteAttachment _ => Unit
  | .uploadPartToS3 .. => String
  | .completeMultipartInS3 .. => Unit
  | .abortMultipartInS3 .. => Unit
  | .objectExistsInS3 .. => Bool
  | .uploadToS3 .. => String × Option String
  | .deleteFromS3 .. => Unit

/-- A failure of the object store is reported, one of the database is its own error. -/
def Call.failure : Call → StorageError
  | .uploadPartToS3 .. | .completeMultipartInS3 .. | .abortMultipartInS3 .. | .objectExistsInS3 ..
  | .uploadToS3 .. | .deleteFromS3 .. => .internalError
  | _ => .databaseError

namespace Store

/-- Write the session of an id back where it is changed. -/
def writeSession (s : Store) (id : String) (session : Option UploadSession) : Store :=
  match session with
  | some session => { s with uploadSessions := s.uploadSessions.insert id session }
  | none => s

def findHash (p : Primitives) (s : Store) (hash : String) : Option FileHash :=
  (p.order s.fileHashes.values).find? fun row => row.id = hash ∨ row.processedHash = hash

/-- The parts of a list, put together if each is the latest of its number. -/
def assembleParts (upload : Multipart) : List (Int × String) → Option Bytes
  | [] => some []
  | (partNumber, etag) :: rest => do
    let part ← upload.parts.get partNumber
    if part.etag = etag then do
      let tail ← assembleParts upload rest
      return part.body ++ tail
    else none

/-- An object is put together from at least one part. -/
def assemble (upload : Multipart) (parts : List (Int × String)) : Option Bytes :=
  if parts = [] then none else assembleParts upload parts

def openUpload (s : Store) (bucketId path uploadId : String) : Option Multipart :=
  (s.multiparts.get uploadId).filter fun upload => upload.bucketId = bucketId ∧ upload.path = path

end Store

/-- One call. -/
def perform (p : Primitives) : (c : Call) → Store → Store × Except StorageError (Reply c)
  | .fetchUploadSession id, s =>
    match s.uploadSessions.get id with
    | some session => (s, .ok session)
    | none => (s, .error .notFound)
  | .tryClaimUploadPart id partKey claimedAt staleCutoff, s =>
    let claimed := (s.uploadSessions.get id).bind fun session =>
      session.claimPart partKey claimedAt staleCutoff
    (s.writeSession id claimed, .ok claimed)
  | .recordUploadPart id partKey record headB64, s =>
    let recorded := (s.uploadSessions.get id).bind fun session =>
      session.recordPart partKey record headB64
    (s.writeSession id recorded, .ok recorded.isSome)
  | .releaseUploadPartClaim id partKey, s =>
    (s.writeSession id ((s.uploadSessions.get id).map (UploadSession.releasePart · partKey)), .ok ())
  | .beginUploadSessionComplete id compositeHash, s =>
    let begun := (s.uploadSessions.get id).bind (UploadSession.beginComplete · compositeHash)
    (s.writeSession id begun, .ok begun)
  | .revertUploadSessionToPending id, s =>
    let reverted := (s.uploadSessions.get id).bind UploadSession.revertToPending
    (s.writeSession id reverted, .ok reverted.isSome)
  | .setUploadSessionCompleted id fileId, s =>
    (s.writeSession id ((s.uploadSessions.get id).map (UploadSession.setCompleted · fileId)), .ok ())
  | .setUploadSessionAborted id, s =>
    let aborted := (s.uploadSessions.get id).bind UploadSession.setAborted
    (s.writeSession id aborted, .ok aborted.isSome)
  | .fetchExpiredUploadSessions before, s =>
    (s, .ok ((p.order s.uploadSessions.values).filter fun session => session.expiresAt < before))
  | .deleteUploadSession id, s => ({ s with uploadSessions := s.uploadSessions.erase id }, .ok ())
  | .fetchAttachmentHash hash, s =>
    match s.findHash p hash with
    | some row => (s, .ok row)
    | none => (s, .error .notFound)
  | .insertAttachmentHash row, s =>
    match s.fileHashes.get row.id with
    | some _ => (s, .error .databaseError)
    | none => ({ s with fileHashes := s.fileHashes.insert row.id row }, .ok ())
  | .setAttachmentHashStorage hash path iv keyId, s =>
    match s.fileHashes.get hash with
    | some row =>
      ({ s with fileHashes :=
          s.fileHashes.insert hash { row with path := path, iv := iv, keyId := keyId } }, .ok ())
    | none => (s, .error .notFound)
  | .deleteAttachmentHash id, s =>
    match s.fileHashes.get id with
    | some _ => ({ s with fileHashes := s.fileHashes.erase id }, .ok ())
    | none => (s, .error .notFound)
  | .insertAttachment file, s =>
    match s.files.get file.id with
    | some _ => (s, .error .databaseError)
    | none => ({ s with files := s.files.insert file.id file }, .ok ())
  | .markAttachmentAsDeleted id, s =>
    match s.files.get id with
    | some file => ({ s with files := s.files.insert id { file with deleted := some true } }, .ok ())
    | none => (s, .error .notFound)
  | .fetchDeletedAttachments, s =>
    (s, .ok ((p.order s.files.values).filter fun file =>
      file.deleted = some true ∧ file.reported ≠ some true))
  | .countFileHashReferences hash, s =>
    (s, .ok (s.files.values.filter fun file => file.hash = some hash).length)
  | .deleteAttachment id, s =>
    match s.files.get id with
    | some _ => ({ s with files := s.files.erase id }, .ok ())
    | none => (s, .error .notFound)
  | .uploadPartToS3 bucketId path uploadId partNumber ciphertext, s =>
    match s.openUpload bucketId path uploadId with
    | some upload =>
      ({ s with
          puts := s.puts + 1
          multiparts := s.multiparts.insert uploadId { upload with
            parts := upload.parts.insert partNumber ⟨p.etag s.puts ciphertext, ciphertext⟩ } },
        .ok (p.etag s.puts ciphertext))
    | none => (s, .error .internalError)
  | .completeMultipartInS3 bucketId path uploadId parts, s =>
    match (s.openUpload bucketId path uploadId).bind (Store.assemble · parts) with
    | some body =>
      ({ s with
          objects := s.objects.insert (bucketId, path) body
          multiparts := s.multiparts.erase uploadId }, .ok ())
    | none => (s, .error .internalError)
  | .abortMultipartInS3 bucketId path uploadId, s =>
    match s.openUpload bucketId path uploadId with
    | some _ => ({ s with multiparts := s.multiparts.erase uploadId }, .ok ())
    -- a missing upload is success
    | none => (s, .ok ())
  | .objectExistsInS3 bucketId path, s => (s, .ok (s.objects.get (bucketId, path)).isSome)
  | .uploadToS3 bucketId path nonce plaintext, s =>
    match p.cipher p.primaryId with
    | some aead =>
      ({ s with objects := s.objects.insert (bucketId, path) (aead.encrypt nonce plaintext) },
        .ok (p.encode nonce, p.primaryId))
    | none => (s, .error .internalError)
  | .deleteFromS3 bucketId path, s =>
    ({ s with objects := s.objects.erase (bucketId, path) }, .ok ())

/-- The programs of the file service. -/
abbrev Program (α : Type) := Prog StorageError Call (fun c => Except StorageError (Reply c)) α

/-- What can be uploaded to. -/
inductive Tag where
  | attachments
  | avatars
  | backgrounds
  | icons
  | banners
  | emojis
  | stickers
  | soundboard
  deriving DecidableEq

def assertAttachmentsTag (tag : Tag) : Except StorageError Unit :=
  if tag = .attachments then .ok () else .error .fileTypeNotAllowed

/-- Fetch a session and check that the caller owns it. -/
def fetchOwnedSession (id user : String) : Program UploadSession := do
  let session ← propagate (Call.fetchUploadSession id)
  check (refuseIf (session.uploaderId ≠ user) .notFound)
  return session

/-! ## Samples -/

namespace SampleStorage

/-- A text that spells the bytes. -/
def spell (bytes : Bytes) : String := String.ofList ('#' :: bytes.map fun b => Char.ofNat b.toNat)

def unspell (text : String) : Bytes := text.toList.tail.map fun c => UInt8.ofNat c.toNat

theorem unspell_spell (bytes : Bytes) : unspell (spell bytes) = bytes := by
  have hby : ∀ b : UInt8, UInt8.ofNat (Char.ofNat b.toNat).toNat = b := by
    intro b
    have hsmal := b.toNat_lt
    have hval : b.toNat.isValidChar := .inl (by omega)
    have hch : (Char.ofNat b.toNat).toNat = b.toNat := by
      rw [Char.ofNat, dif_pos hval]
      rfl
    rw [hch, UInt8.ofNat_toNat]
  unfold unspell spell
  rw [String.toList_ofList, List.tail_cons, map_map]
  exact (List.map_congr_left fun b _ => hby b).trans (List.map_id bytes)

/-- The hash, the tag and the encoding of a content spell it. -/
def primitives : Primitives where
  sha256 := spell
  encode := fun bytes => if bytes = noncePrefix.1 then "AQIDBAUGBw==" else spell bytes
  decode := fun text => some (if text = "AQIDBAUGBw==" then noncePrefix.1 else unspell text)
  cipher := fun _ => some aead
  primaryId := none
  etag := fun _ body => spell body
  determineMimeType := fun _ _ => "application/octet-stream"
  blockedMimeTypes := []
  order := fun rows => rows
  decode_encode := by
    intro bytes
    split
    · rename_i h
      rw [if_pos rfl, h]
    · rw [if_neg, unspell_spell]
      intro h
      have hhead := congrArg (fun text => text.toList.head?) h
      rw [spell, String.toList_ofList, List.head?_cons] at hhead
      exact absurd hhead (by decide)
  etag_inj := fun h => by
    have hbytes := congrArg unspell h
    rwa [unspell_spell, unspell_spell] at hbytes
  order_perm := fun _ => List.Perm.refl _

end SampleStorage

end SlogaBackend.Files
