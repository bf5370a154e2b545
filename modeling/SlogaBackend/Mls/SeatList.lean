import SlogaBackend.Mls.Types

/-!
# The signed seat list: its canonical body and its commit AD

The two byte formats of `models/protected_channels/model.rs` that every rule
below rests on: the nine-line canonical body a list is signed as, and the
length-prefixed `authenticated_data` a Text commit must carry while the list is
the newest one.

Base64 decoding and SHA-256 come from packages outside the repository. They
enter as the two fields of `Primitives`, and nothing is assumed of either.
-/

namespace SlogaBackend.Mls

open Checks

/-- The two outside functions the formats use: `STANDARD_NO_PAD.decode` and
`Sha256::digest`. -/
structure Primitives where
  decodeB64 : String → Option (List UInt8)
  sha256 : List UInt8 → List UInt8

/-! ## Limits and labels -/

/-- Most seats one signed list may carry. -/
def maxSeatListSeats : Nat := 100

/-- Longest stored handover chain. -/
def maxSeatListHandovers : Nat := 16

/-- Byte limit of a seat-list body inside the commit AD. -/
def maxSeatListBodyLen : Nat := 4096

/-- Byte limit of a handover body inside the commit AD. -/
def maxHandoverBodyLen : Nat := 1024

/-- Byte limit of the whole commit AD. -/
def maxCommitAdLen : Nat := 16383

/-- `2^53 - 1`, the bound on every canonical integer. -/
def maxCanonicalInt : Nat := 9007199254740991

def contextSeatList : String := "sloga-seat-list-v1"

/-- Commit `authenticated_data` context field. -/
def contextCommitAd : String := "sloga-text-commit-ad-v1"

/-- Length of an Ed25519 signature in unpadded base64. -/
def signatureB64Len : Nat := 86

/-- `FailedValidation` with a text. -/
def invalid (error : String) : Error := .failedValidation error

/-! ## Identifiers and decimals -/

/-- The letters of a Crockford base32 id. -/
def isUlidChar (c : Char) : Bool :=
  ('0' ≤ c && c ≤ '9') || ('A' ≤ c && c ≤ 'H') || c == 'J' || c == 'K' || c == 'M' || c == 'N' ||
    ('P' ≤ c && c ≤ 'T') || ('V' ≤ c && c ≤ 'Z')

/-- ULID, Crockford base32, uppercase, 26 characters. -/
def isValidUlidId (value : String) : Bool := value.utf8ByteSize == 26 && value.toList.all isUlidChar

def isLowerHexChar (c : Char) : Bool := ('0' ≤ c && c ≤ '9') || ('a' ≤ c && c ≤ 'f')

/-- Device id: 32 lowercase hex characters. -/
def isValidDeviceIdHex (value : String) : Bool :=
  value.utf8ByteSize == 32 && value.toList.all isLowerHexChar

/-- Canonical ASCII decimal: digits only, no sign, no leading zeros, a `u64`. -/
def parseCanonicalDecimal (value : String) : Option Nat :=
  if value.toList = [] ∨ ¬ value.toList.all Char.isDigit then none
  else if 1 < value.utf8ByteSize ∧ value.toList.head? = some '0' then none
  else if Nat.ofDigitChars 10 value.toList 0 < 2 ^ 64 then
    some (Nat.ofDigitChars 10 value.toList 0)
  else none

/-- `label:` stripped off a line. -/
def labeled (line label : String) : Option String :=
  (stripPrefix? label line).bind (stripPrefix? ":")

theorem splitChar_intercalate {c : Char} {parts : List String} (hne : parts ≠ [])
    (hpar : ∀ part ∈ parts, c ∉ part.toList) :
    splitChar c ((String.singleton c).intercalate parts) = parts := by
  have hlis : ∀ l ∈ parts.map String.toList, c ∉ l := by
    intro l hl
    obtain ⟨part, hpr, rfl⟩ := List.mem_map.mp hl
    exact hpar part hpr
  rw [splitChar, String.toList_intercalate, String.toList_singleton,
    List.splitOn_intercalate c hlis (by simpa using hne), List.map_map]
  simp

theorem stripPrefix?_append (label rest : String) :
    stripPrefix? label (label ++ rest) = some rest := by
  simp [stripPrefix?]

theorem labeled_append (label value : String) :
    labeled (label ++ ":" ++ value) label = some value := by
  rw [labeled, String.append_assoc, stripPrefix?_append, Option.bind_some, stripPrefix?_append]

/-! ## The canonical body -/

structure SeatListBody where
  channelId : String
  version : Int
  deviceCap : Nat
  issuedAt : Int
  signerUserId : String
  signerDeviceId : String
  seats : List String

namespace SeatListBody

/-- The labelled field at a line index. -/
def field (lines : List String) (index : Nat) (label : String) : Result String :=
  okOr ((lines[index]?).bind fun line => labeled line label) (invalid "seat list label")

theorem field_of_line {lines : List String} {index : Nat} {label value : String}
    (h : lines[index]? = some (label ++ ":" ++ value)) : field lines index label = .ok value := by
  rw [field, okOr_eq_ok, h, Option.bind_some, labeled_append]

/-- Strict parse: nothing is trimmed, normalized or re-sorted. -/
def parse (body : String) : Result SeatListBody := do
  refuseIf (maxSeatListBodyLen < body.utf8ByteSize) (invalid "seat list body too long")
  refuseIf ('\r' ∈ body.toList) (invalid "seat list body contains CR")
  let lines := splitChar '\n' body
  refuseIf (lines.length ≠ 9) (invalid "seat list body must have exactly 9 lines")
  refuseIf (lines[0]? ≠ some contextSeatList ∨ lines[1]? ≠ some "v:1")
    (invalid "seat list context or format version")
  let channelId ← field lines 2 "channel_id"
  refuseIf (¬ isValidUlidId channelId) (invalid "seat list channel_id")
  let versionText ← field lines 3 "version"
  let version ← okOr ((parseCanonicalDecimal versionText).filter fun v =>
    1 ≤ v && v ≤ maxCanonicalInt) (invalid "seat list version")
  let deviceCapText ← field lines 4 "device_cap"
  let deviceCap ← okOr ((parseCanonicalDecimal deviceCapText).filter fun cap => cap < 2 ^ 32)
    (invalid "seat list device_cap")
  let issuedAtText ← field lines 5 "issued_at"
  let issuedAt ← okOr ((parseCanonicalDecimal issuedAtText).filter fun v => v ≤ maxCanonicalInt)
    (invalid "seat list issued_at")
  let signerUserId ← field lines 6 "signer_user_id"
  refuseIf (¬ isValidUlidId signerUserId) (invalid "seat list signer_user_id")
  let signerDeviceId ← field lines 7 "signer_device_id"
  refuseIf (¬ isValidDeviceIdHex signerDeviceId) (invalid "seat list signer_device_id")
  let seatsLine ← field lines 8 "seats"
  refuseIf (seatsLine.toList = []) (invalid "seat list has no seats")
  let seats := splitChar ',' seatsLine
  refuseIf (maxSeatListSeats < seats.length) (invalid "seat list has too many seats")
  refuseIf (¬ seats.all isValidUlidId) (invalid "seat list seat id")
  -- strictly ascending by byte value is sorted and unique
  refuseIf (¬ seats.IsChain (· < ·)) (invalid "seat list seats not sorted and unique")
  refuseIf (signerUserId ∉ seats) (invalid "seat list signer is not seated")
  return {
    channelId := channelId
    version := version
    deviceCap := deviceCap
    issuedAt := issuedAt
    signerUserId := signerUserId
    signerDeviceId := signerDeviceId
    seats := seats }

end SeatListBody

/-- What an accepted body guarantees beyond its fields. -/
structure SeatListBody.Valid (b : SeatListBody) : Prop where
  channel_ulid : isValidUlidId b.channelId = true
  seats_ulid : ∀ u ∈ b.seats, isValidUlidId u = true
  seats_nodup : b.seats.Nodup
  signer_mem : b.signerUserId ∈ b.seats

/-- **An accepted body is valid.** -/
theorem SeatListBody.valid_of_parse {body : String} {b : SeatListBody}
    (h : SeatListBody.parse body = .ok b) : b.Valid := by
  unfold SeatListBody.parse at h
  simp only [bind_eq_ok, refuseIf_eq_ok, okOr_eq_ok, pure_eq_ok] at h
  obtain ⟨-, -, -, -, -, -, -, -, channelId, -, -, hch, -, -, version, -, -, -, deviceCap, -,
    -, -, issuedAt, -, signerUserId, -, -, -, signerDeviceId, -, -, -, seatsLine, -, -, -,
    -, -, -, hall, -, hcha, -, hsig, rfl⟩ := h
  refine ⟨?_, ?_, ?_, ?_⟩
  · simpa using hch
  · simpa using hall
  · have hpw : (splitChar ',' seatsLine).Pairwise (· < ·) :=
      List.isChain_iff_pairwise.mp (not_not.mp hcha)
    exact hpw.imp fun hlt => ne_of_lt hlt
  · exact not_not.mp hsig

theorem colon_notMem_of_isValidUlidId {value : String} (h : isValidUlidId value = true) :
    ':' ∉ value.toList := by
  intro hmem
  simp only [isValidUlidId, Bool.and_eq_true, List.all_eq_true] at h
  exact absurd (h.2 ':' hmem) (by decide)

theorem ChannelSeat.compositeId_inj {c u c' u' : String} (hc : isValidUlidId c = true)
    (hc' : isValidUlidId c' = true)
    (h : ChannelSeat.compositeId c u = ChannelSeat.compositeId c' u') : c = c' ∧ u = u' :=
  joinColon_inj (colon_notMem_of_isValidUlidId hc) (colon_notMem_of_isValidUlidId hc') h

/-! ## The commit AD -/

variable (prim : Primitives)

/-- Decode an unpadded base64 Ed25519 signature to its raw 64 bytes. -/
def decodeSignatureB64 (signature : String) : Result (List UInt8) := do
  refuseIf (signature.utf8ByteSize ≠ signatureB64Len) (invalid "signature length")
  let raw ← okOr (prim.decodeB64 signature) (invalid "signature encoding")
  refuseIf (raw.length ≠ 64) (invalid "signature length")
  return raw

/-- `(len as u16).to_be_bytes()`. -/
def u16BeBytes (n : Nat) : List UInt8 := [UInt8.ofNat (n / 256), UInt8.ofNat n]

def asBytes (s : String) : List UInt8 := s.toUTF8.data.toList

/-- Append one length-prefixed field. -/
def pushAdField (out bytes : List UInt8) : Result (List UInt8) := do
  refuseIf (65535 < bytes.length) (invalid "commit ad field too long")
  return out ++ u16BeBytes bytes.length ++ bytes

def hexDigit (n : UInt8) : Char := Nat.digitChar n.toNat

def toHex (bytes : List UInt8) : String :=
  String.ofList (bytes.flatMap fun byte => [hexDigit (byte / 16), hexDigit (byte % 16)])

/-- Append the fields of each handover of a chain. -/
def pushHandovers (out : List UInt8) : List SignedHandover → Result (List UInt8)
  | [] => .ok out
  | handover :: rest => do
    refuseIf (maxHandoverBodyLen < handover.body.utf8ByteSize) (invalid "handover body too long")
    let out ← pushAdField out (asBytes handover.body)
    let raw ← decodeSignatureB64 prim handover.signature
    let out ← pushAdField out raw
    pushHandovers out rest

namespace SeatList

/-- The commit `authenticated_data` every Text commit must carry while this row
is the newest list. -/
def commitAd (list : SeatList) : Result (List UInt8) := do
  refuseIf (maxSeatListBodyLen < list.body.utf8ByteSize) (invalid "seat list body too long")
  refuseIf (maxSeatListHandovers < list.handovers.length) (invalid "handover chain too long")
  let out ← pushAdField [] (asBytes contextCommitAd)
  let out ← pushAdField out (asBytes list.body)
  let raw ← decodeSignatureB64 prim list.signature
  let out ← pushAdField out raw
  let out ← pushHandovers prim (out ++ u16BeBytes list.handovers.length) list.handovers
  refuseIf (maxCommitAdLen < out.length) (invalid "commit ad too long")
  return out

def commitAdSha256 (list : SeatList) : Result String := do
  let ad ← list.commitAd prim
  return toHex (prim.sha256 ad)

end SeatList

end SlogaBackend.Mls
