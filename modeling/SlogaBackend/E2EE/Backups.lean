import SlogaBackend.Lib.Processes
import SlogaBackend.Mls.SeatList

/-!
# Key backups

A device keeps one encrypted backup of its keys on the server, with a generation that the client
counts up. An upload reads the backup there is, refuses a generation that is not above it, and
replaces the backup in a second call.
-/

namespace SlogaBackend.E2EE

open Checks

/-! ## The documents -/

structure E2EEBackup where
  id : String
  userId : String
  deviceId : String
  header : String
  ciphertext : String
  generation : Int
  createdAt : Timestamp
  updatedAt : Timestamp
  deriving DecidableEq

namespace E2EEBackup

/-- `E2EEBackup::composite_id`. -/
def compositeId (userId deviceId : String) : String := joinColon userId deviceId

end E2EEBackup

/-- What is read of a device's identity here. -/
structure E2EEIdentity where
  lastSessionId : String

/-- `serde_json::Value`, with the numbers that are integers of 64 bits apart from the others. -/
inductive Json where
  | null
  | bool (value : Bool)
  | int (value : Int)
  | float
  | string (value : String)
  | array (values : List Json)
  | object (fields : List (String × Json))

namespace Json

def get : Json → String → Option Json
  | object fields, key => fields.lookup key
  | _, _ => none

def asStr : Json → Option String
  | string value => some value
  | _ => none

def asU64 : Json → Option Nat
  | int value => if 0 ≤ value then some value.toNat else none
  | _ => none

def asI64 : Json → Option Int
  | int value => if value ≤ maxI64 then some value else none
  | _ => none

end Json

/-! ## The checks -/

inductive PutError where
  | error (error : Error)
  | notAuthenticated

/-- A failed validation, with its text. -/
def failed (text : String) : PutError := .error (.failedValidation text)

def maxBackupSize : Nat := 8 * 1024 * 1024

def maxBackupHeaderSize : Nat := 1024

def maxBackupHeaderLength : Nat := 1024

def maxBackupGenerationJump : Int := 1000000

/-- The three parameters of the key derivation are in range. -/
def kdfInRange (kdf : Json) : Bool :=
  match (kdf.get "m_kib").bind Json.asU64, (kdf.get "t").bind Json.asU64,
    (kdf.get "p").bind Json.asU64 with
  | some m, some t, some p =>
    (8 * 1024 ≤ m && m ≤ 512 * 1024) && (1 ≤ t && t ≤ 10) && (1 ≤ p && p ≤ 4)
  | _, _, _ => false

section Parse

-- `serde_json::from_str`
variable (parseJson : String → Option Json)

/-- `E2EEBackup::validate_header`. -/
def validateHeader (header userId deviceId : String) (generation : Int) : Except PutError Unit := do
  refuseIf (header.utf8ByteSize > maxBackupHeaderSize) (failed "backup header too large")
  let parsed ← okOr (parseJson header) (failed "backup header is not valid JSON")
  refuseIf ((parsed.get "v").bind Json.asU64 ≠ some 1) (failed "backup header: unsupported version")
  let kdf ← okOr (parsed.get "kdf") (failed "backup header: missing kdf")
  refuseIf ((kdf.get "alg").bind Json.asStr ≠ some "argon2id")
    (failed "backup header: unsupported kdf alg")
  refuseIf (kdfInRange kdf = false) (failed "backup header: kdf params out of range")
  refuseIf ((parsed.get "user_id").bind Json.asStr ≠ some userId)
    (failed "backup header: user_id mismatch")
  refuseIf ((parsed.get "device_id").bind Json.asStr ≠ some deviceId)
    (failed "backup header: device_id mismatch")
  let bound ← okOr ((parsed.get "generation").bind Json.asI64)
    (failed "backup header: missing generation")
  refuseIf (bound ≠ generation) (failed "backup header: generation mismatch")

/-! ## The requests -/

structure DataPutE2EEBackup where
  deviceId : String
  header : String
  ciphertext : String
  generation : Int

/-- A request, with what the guards of the route have read for it. -/
structure Request where
  e2eeEnabled : Bool
  user : String
  bot : Bool
  sessionId : String
  /-- The answer of `fetch_e2ee_identity`. -/
  identity : Result E2EEIdentity
  now : Timestamp
  data : DataPutE2EEBackup

namespace Request

/-- The row that the request is about. -/
def id (r : Request) : String := E2EEBackup.compositeId r.user r.data.deviceId

/-- The checks before the backup is read. -/
def check (r : Request) : Except PutError Unit := do
  refuseIf (r.e2eeEnabled = false) (.error (.featureDisabled "e2ee"))
  refuseIf (r.bot = true) (.error .isBot)
  refuseIf (Mls.isValidDeviceIdHex r.data.deviceId = false)
    (failed "device_id must be 128 bits of lowercase hex")
  let identity ← r.identity.mapError .error
  refuseIf (identity.lastSessionId ≠ r.sessionId) .notAuthenticated
  refuseIf (r.data.ciphertext.utf8ByteSize / 4 * 3 > maxBackupSize)
    (failed "backup ciphertext exceeds the size cap")
  refuseIf (r.data.header.utf8ByteSize > maxBackupHeaderLength) (failed "backup header too large")
  validateHeader parseJson r.data.header r.user r.data.deviceId r.data.generation

/-- A generation is positive and jumps by a bounded amount. -/
def checkGeneration (r : Request) (existing : Option E2EEBackup) : Except PutError Unit := do
  refuseIf (r.data.generation < 1) (failed "generation must be positive")
  refuseIf (r.data.generation >
      clampI64 ((existing.map E2EEBackup.generation).getD 0 + maxBackupGenerationJump))
    (failed "generation increment too large")

/-- The row that the request stores. -/
def backup (r : Request) (existing : Option E2EEBackup) : E2EEBackup where
  id := r.id
  userId := r.user
  deviceId := r.data.deviceId
  header := r.data.header
  ciphertext := r.data.ciphertext
  generation := r.data.generation
  createdAt := (existing.map E2EEBackup.createdAt).getD r.now
  updatedAt := r.now

end Request

inductive Call where
  | fetchE2EEBackup (userId deviceId : String)
  | upsertE2EEBackup (backup : E2EEBackup)

abbrev Reply : Call → Type
  | .fetchE2EEBackup .. => Option E2EEBackup
  | .upsertE2EEBackup _ => Unit

/-- The backups by their composite ids. -/
abbrev Store := Table String E2EEBackup

def perform (_ : Nat) : (c : Call) → Store → Store × Reply c
  | .fetchE2EEBackup userId deviceId, s => (s, s.get (E2EEBackup.compositeId userId deviceId))
  | .upsertE2EEBackup backup, s => (s.insert backup.id backup, ())

abbrev Program := Prog PutError Call Reply Int

/-- The backup replaced. -/
def store (r : Request) (existing : Option E2EEBackup) : Program := do
  let _ ← op (Call.upsertE2EEBackup (r.backup existing))
  return r.data.generation

/-- What follows the read; a generation that is not above the stored one is answered with that. -/
def settle (r : Request) (existing : Option E2EEBackup) : Program := do
  check (r.checkGeneration existing)
  match existing with
  | some stored =>
    if r.data.generation ≤ stored.generation then return stored.generation
    else store r existing
  | none => store r existing

def putBackup (r : Request) : Program := do
  check (r.check parseJson)
  let existing ← op (Call.fetchE2EEBackup r.user r.data.deviceId)
  settle r existing

abbrev Uploads := System Store Request PutError Call Reply Int

def Uploads.exec : Uploads → Event Request → Uploads × Unit :=
  System.exec perform (putBackup parseJson)

end Parse

end SlogaBackend.E2EE
