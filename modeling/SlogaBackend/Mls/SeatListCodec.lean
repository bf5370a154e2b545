import Mathlib.Tactic.IntervalCases
import SlogaBackend.Mls.Reference
import SlogaBackend.Lib.Formats

/-!
# One spelling for each signed statement

The seat list and the handover statement are signed as text and compared as
bytes, so a second spelling of the same content would be a second signed
document. This module shows there is none.

Both parsers read a fixed number of labelled lines. `eq_of_labeled_line` says
what an accepted line is --- its label, a colon and the value --- and
`eq_repr_of_parseCanonicalDecimal` that an accepted number is spelled as it is
printed. An accepted text is therefore the text of its content
(`SeatListBody.text_of_parse`, `HandoverBody.text_of_parse`), and the text
determines the content.

The builder goes the other way and sorts its seats. It returns what it printed
only after its own parser took it, but the parser may read other seats than the
builder was given: a seat id that holds a comma is printed as it stands and read
back as two. `build_seats_iff` is the exact condition.

The commit AD is a sequence of length-prefixed fields behind a two-byte count;
`Formats.LengthCode` does the decoding argument.
-/

namespace SlogaBackend.Mls

open Checks Formats

/-! ## Text -/

theorem intercalate_splitChar (c : Char) (s : String) :
    (String.singleton c).intercalate (splitChar c s) = s := by
  refine String.toList_inj.mp ?_
  rw [String.toList_intercalate, splitChar, map_map]
  simp

theorem notMem_of_length_splitChar {c : Char} {parts : List String} (hne : parts ≠ [])
    (hlen : (splitChar c ((String.singleton c).intercalate parts)).length = parts.length) :
    ∀ part ∈ parts, c ∉ part.toList := by
  have hlis : (([c].intercalate (parts.map String.toList)).splitOn c).length =
      (parts.map String.toList).length := by
    rw [splitChar, length_map, String.toList_intercalate, String.toList_singleton] at hlen
    rw [hlen, length_map]
  intro part hpr
  exact notMem_of_length_splitOn_intercalate (by simpa using hne) hlis part.toList
    (mem_map_of_mem hpr)

variable {label value : String}

theorem eq_append_of_stripPrefix? {s rest : String} (h : stripPrefix? label s = some rest) :
    s = label ++ rest := by
  unfold stripPrefix? at h
  split at h
  · rename_i hpref
    obtain ⟨tail, htl⟩ := hpref
    have hrs : rest.toList = tail := by
      rw [← some.inj h, String.toList_ofList, ← htl, drop_left]
    refine String.toList_inj.mp ?_
    rw [String.toList_append, hrs, htl]
  · cases h

theorem eq_of_labeled {line : String} (h : labeled line label = some value) :
    line = label ++ ":" ++ value := by
  obtain ⟨rest, hrs, hval⟩ := bind_eq_some_iff.mp h
  rw [eq_append_of_stripPrefix? hrs, eq_append_of_stripPrefix? hval, String.append_assoc]

theorem eq_of_labeled_line {lines : List String} {index : Nat} {error : Error}
    (h : okOr ((lines[index]?).bind fun line => labeled line label) error = .ok value) :
    lines[index]? = some (label ++ ":" ++ value) := by
  obtain ⟨line, hln, hval⟩ := bind_eq_some_iff.mp (okOr_eq_ok.mp h)
  rw [hln, eq_of_labeled hval]

theorem length_toList_le_utf8ByteSize (s : String) : s.toList.length ≤ s.utf8ByteSize := by
  have hls : ∀ cs : List Char, cs.length ≤ (String.ofList cs).utf8ByteSize := by
    intro cs
    induction cs with
    | nil => simp
    | cons c cs ih =>
      have hsz := Char.utf8Size_pos c
      rw [← List.singleton_append, String.ofList_append, String.utf8ByteSize_append,
        ← String.singleton_eq_ofList, String.utf8ByteSize_singleton, length_append,
        length_singleton]
      omega
  simpa using hls s.toList

/-- **An accepted number is spelled as it is printed.** -/
theorem eq_repr_of_parseCanonicalDecimal {n : Nat} (h : parseCanonicalDecimal value = some n)
    : value = Nat.repr n := by
  unfold parseCanonicalDecimal at h
  split at h
  · cases h
  rename_i hdig
  split at h
  · cases h
  rename_i hzr
  split at h
  · have hcan : CanonicalDigits value.toList := by
      rw [not_or, not_not] at hdig
      refine ⟨hdig.1, fun c hc => all_eq_true.mp hdig.2 c hc, fun hlen hhd => ?_⟩
      refine hzr ⟨?_, hhd⟩
      exact lt_of_lt_of_le hlen (length_toList_le_utf8ByteSize value)
    refine String.toList_inj.mp ?_
    rw [Nat.toList_repr, ← some.inj h, toDigits_ofDigitChars hcan]
  · cases h

theorem eq_of_repr_eq {v : Int} {n : Nat} (h : v.repr = Nat.repr n) : v = n := by
  cases v with
  | ofNat m => exact congrArg Int.ofNat (natRepr_injective h)
  | negSucc m =>
    -- a sign is no digit
    have hmem : '-' ∈ (Nat.repr n).toList := by
      rw [← h]
      show '-' ∈ ("-" ++ Nat.repr (m + 1)).toList
      simp
    rw [Nat.toList_repr] at hmem
    exact absurd (Nat.isDigit_of_mem_toDigits (by decide) (by decide) hmem) (by decide)

theorem eq_of_getElem?_lt {α : Type*} {l l' : List α} (hlen : l.length = l'.length)
    (h : ∀ i < l'.length, l[i]? = l'[i]?) : l = l' := by
  refine List.ext_getElem? fun i => ?_
  by_cases hi : i < l'.length
  · exact h i hi
  · rw [List.getElem?_eq_none (by omega), List.getElem?_eq_none (by omega)]

/-! ## The seat list -/

namespace SeatListBody

/-- The lines of a body, its seats as they stand. -/
def lines (b : SeatListBody) : List String :=
  [contextSeatList, "v:1", "channel_id" ++ ":" ++ b.channelId,
    "version" ++ ":" ++ b.version.repr, "device_cap" ++ ":" ++ b.deviceCap.repr,
    "issued_at" ++ ":" ++ b.issuedAt.repr, "signer_user_id" ++ ":" ++ b.signerUserId,
    "signer_device_id" ++ ":" ++ b.signerDeviceId, "seats" ++ ":" ++ ",".intercalate b.seats]

def text (b : SeatListBody) : String := "\n".intercalate b.lines

/-- Canonical builder: sorts and de-duplicates the seats, then re-parses its own
output. -/
def build (b : SeatListBody) : Result String := do
  let body := text { b with seats := sortDedup b.seats }
  let _ ← parse body
  return body

/-- What an accepted text says of its content: the text is the content's own,
and its seats are ids in strictly ascending order. -/
structure Spelling (s : String) (b : SeatListBody) : Prop where
  text_eq : s = b.text
  lines_eq : (splitChar '\n' s).length = 9
  seats_ascending : b.seats.IsChain (· < ·)
  seats_ulid : ∀ seat ∈ b.seats, isValidUlidId seat = true
  seats_ne_nil : b.seats ≠ []
  version_eq : ∃ v : Nat, b.version = v
  issuedAt_eq : ∃ at' : Nat, b.issuedAt = at'

variable {s : String} {b b' : SeatListBody}

/-- **An accepted text is the text of its content.** -/
theorem spelling_of_parse (h : parse s = .ok b) : Spelling s b := by
  unfold parse at h
  simp only [bind_eq_ok, refuseIf_eq_ok, okOr_eq_ok, pure_eq_ok, not_or, not_not] at h
  obtain ⟨-, -, -, -, -, hlin, -, ⟨hcon, hfor⟩, channelId, hcha, -, -, versionText,
    hversionText, version, hvers, deviceCapText, hdeviceCapText, deviceCap, hdeviceCap,
    issuedAtText, hissuedAtText, issuedAt, hissuedAt, signerUserId, hsign, -, -, signerDeviceId,
    hdev, -, -, seatsLine, hsea, -, -, -, -, -, huli, -, hchai, -, -, rfl⟩ := h
  have hvers' := eq_repr_of_parseCanonicalDecimal (filter_eq_some_iff.mp hvers).1
  have hdeviceCap' := eq_repr_of_parseCanonicalDecimal (filter_eq_some_iff.mp hdeviceCap).1
  have hissuedAt' := eq_repr_of_parseCanonicalDecimal (filter_eq_some_iff.mp hissuedAt).1
  have hall : splitChar '\n' s = [contextSeatList, "v:1", "channel_id" ++ ":" ++ channelId,
      "version" ++ ":" ++ versionText, "device_cap" ++ ":" ++ deviceCapText,
      "issued_at" ++ ":" ++ issuedAtText, "signer_user_id" ++ ":" ++ signerUserId,
      "signer_device_id" ++ ":" ++ signerDeviceId, "seats" ++ ":" ++ seatsLine] := by
    refine eq_of_getElem?_lt hlin fun i hi => ?_
    replace hi : i < 9 := hi
    interval_cases i
    · exact hcon
    · exact hfor
    · exact eq_of_labeled_line hcha
    · exact eq_of_labeled_line hversionText
    · exact eq_of_labeled_line hdeviceCapText
    · exact eq_of_labeled_line hissuedAtText
    · exact eq_of_labeled_line hsign
    · exact eq_of_labeled_line hdev
    · exact eq_of_labeled_line hsea
  refine ⟨?_, hlin, hchai, by simpa using huli, ?_, ⟨version, rfl⟩, ⟨issuedAt, rfl⟩⟩
  · have hjoin := intercalate_splitChar '\n' s
    have hseatsLine := intercalate_splitChar ',' seatsLine
    rw [hall, hvers', hdeviceCap', hissuedAt'] at hjoin
    rw [← hjoin]
    unfold text lines
    rw [show ",".intercalate (splitChar ',' seatsLine) = seatsLine from hseatsLine]
    rfl
  · exact fun hnil => List.splitOn_ne_nil ',' seatsLine.toList (List.map_eq_nil_iff.mp hnil)

theorem lines_of_text (h : (splitChar '\n' b.text).length = 9) : splitChar '\n' b.text = b.lines :=
  splitChar_intercalate (by simp [lines]) (notMem_of_length_splitChar (by simp [lines]) h)

/-- **A nine-line text determines its content**, the seats up to their joined
line. -/
theorem text_inj (hlin : (splitChar '\n' b.text).length = 9) (htx : b.text = b'.text)
    (hvers : ∃ v : Nat, b'.version = v) (hissuedAt : ∃ v : Nat, b'.issuedAt = v) :
    b = { b' with seats := b.seats } ∧ ",".intercalate b.seats = ",".intercalate b'.seats := by
  have hlis := lines_of_text hlin
  rw [htx, lines_of_text (htx ▸ hlin)] at hlis
  simp only [lines, List.cons.injEq, String.append_right_inj, true_and, and_true] at hlis
  obtain ⟨hch, hver, hcap, hiss, hsu, hsd, hsea⟩ := hlis
  obtain ⟨v, hv⟩ := hvers
  obtain ⟨w, hw⟩ := hissuedAt
  rw [hv] at hver
  rw [hw] at hiss
  have hcap' : (b.deviceCap : Int) = b'.deviceCap := eq_of_repr_eq hcap.symm
  refine ⟨?_, hsea.symm⟩
  cases b
  simp only [mk.injEq, and_true] at *
  refine ⟨hch.symm, ?_, by omega, ?_, hsu.symm, hsd.symm⟩
  · rw [hv]
    exact eq_of_repr_eq hver.symm
  · rw [hw]
    exact eq_of_repr_eq hiss.symm

theorem build_eq_ok :
    build b = .ok s ↔ s = text { b with seats := sortDedup b.seats } ∧ ∃ b', parse s = .ok b' := by
  unfold build
  simp only [bind_eq_ok, pure_eq_ok]
  constructor
  · rintro ⟨b', hprs, rfl⟩
    exact ⟨rfl, b', hprs⟩
  · rintro ⟨rfl, b', hprs⟩
    exact ⟨b', hprs, rfl⟩

theorem comma_notMem_of_isValidUlidId {value : String} (h : isValidUlidId value = true) :
    ',' ∉ value.toList := by
  intro hmem
  simp only [isValidUlidId, and_eq_true, all_eq_true] at h
  exact absurd (h.2 ',' hmem) (by decide)

/-- What the parser reads in a built text: the builder's own content, the seats
as their joined line splits. -/
theorem parse_of_build (hs : s = text { b with seats := sortDedup b.seats }) (h : parse s = .ok b')
    :
    b' = { b with seats := splitChar ',' (",".intercalate (sortDedup b.seats)) } := by
  have hspel := spelling_of_parse h
  have hlin := hspel.lines_eq
  rw [hs] at hlin
  obtain ⟨heq, hjoin⟩ := text_inj hlin (hs.symm.trans hspel.text_eq) hspel.version_eq
    hspel.issuedAt_eq
  have hspl : splitChar ',' (",".intercalate b'.seats) = b'.seats :=
    splitChar_intercalate hspel.seats_ne_nil fun seat hst =>
      comma_notMem_of_isValidUlidId (hspel.seats_ulid seat hst)
  rw [show ",".intercalate (sortDedup b.seats) = ",".intercalate b'.seats from hjoin, hspl]
  cases b'
  simp only [mk.injEq, and_true] at heq ⊢
  exact ⟨heq.1.symm, heq.2.1.symm, heq.2.2.1.symm, heq.2.2.2.1.symm, heq.2.2.2.2.1.symm,
    heq.2.2.2.2.2.symm⟩

theorem build_seats_iff (h : build b = .ok s) :
    parse s = .ok { b with seats := sortDedup b.seats } ↔ ∀ seat ∈ b.seats, ',' ∉ seat.toList := by
  obtain ⟨hs, b', hprs⟩ := build_eq_ok.mp h
  have hrd := parse_of_build hs hprs
  have huli := (spelling_of_parse hprs).seats_ulid
  constructor
  · intro hprs' seat hst
    rw [hprs, Except.ok.injEq] at hprs'
    refine comma_notMem_of_isValidUlidId (huli seat ?_)
    rw [hprs']
    exact mem_sortDedup.mpr hst
  · intro hsea
    have hne : sortDedup b.seats ≠ [] := by
      intro hnil
      -- an empty line would be read as the one seat id ""
      rw [hrd, hnil] at huli
      have hemp : isValidUlidId "" = true := huli "" (show "" ∈ [""] from mem_cons_self)
      exact absurd hemp (by decide)
    have hspl : splitChar ',' (",".intercalate (sortDedup b.seats)) = sortDedup b.seats :=
      splitChar_intercalate hne fun seat hst => hsea seat (mem_sortDedup.mp hst)
    rw [hprs, hrd, hspl]

/-- **Parse and build are inverse on the format.** An accepted text is what the
builder makes of its content, so a content has one accepted text; and a built
text is read back as the builder's content, seats sorted and de-duplicated,
exactly when no seat id of the content holds a comma. -/
theorem parse_build_inverse : (∀ s b, parse s = .ok b → build b = .ok s) ∧
      ∀ b s, build b = .ok s → (parse s = .ok { b with seats := sortDedup b.seats } ↔
          ∀ seat ∈ b.seats, ',' ∉ seat.toList) := by
  refine ⟨fun s b h => ?_, fun b s h => build_seats_iff h⟩
  have hspelling := spelling_of_parse h
  refine build_eq_ok.mpr ⟨?_, b, h⟩
  rw [sortDedup_of_isChain hspelling.seats_ascending]
  exact hspelling.text_eq

open Sample

/-- The genesis list of the sample run with both ids in one seat string. -/
def commaSeat : SeatListBody := { genesisBody with seats := [owner.userId ++ "," ++ guest.userId] }

theorem build_commaSeat : build commaSeat = .ok genesis.body := by
  refine build_eq_ok.mpr ⟨?_, genesisBody, parse_genesis⟩
  rw [(spelling_of_parse parse_genesis).text_eq]
  rfl

/-- **A seat id with a comma is read back as two.** The builder accepts the list,
and its text is parsed with the two ids apart. -/
theorem build_comma_seat : build commaSeat = .ok genesis.body ∧
      parse genesis.body ≠ .ok { commaSeat with seats := sortDedup commaSeat.seats } := by
  refine ⟨build_commaSeat, fun hparse => ?_⟩
  have hcomma := (build_seats_iff build_commaSeat).mp hparse _ mem_cons_self
  exact hcomma (by decide)

/-- The sample's genesis list goes through parser and builder unchanged. -/
theorem parse_build_inverse_genesis : build genesisBody = .ok genesis.body ∧
      parse genesis.body = .ok { genesisBody with seats := sortDedup genesisBody.seats } := by
  have hbuilt := parse_build_inverse.1 _ _ parse_genesis
  exact ⟨hbuilt, (parse_build_inverse.2 _ _ hbuilt).mpr (by decide)⟩

end SeatListBody

/-! ## The handover statement -/

def contextHandover : String := "sloga-owner-handover-v1"

/-- Length of an Ed25519 public key in unpadded base64. -/
def identityKeyB64Len : Nat := 43

/-- A parsed owner handover statement. -/
structure HandoverBody where
  channelId : String
  fromUserId : String
  fromDeviceId : String
  fromIdentityKey : String
  toUserId : String
  toDeviceId : String
  toIdentityKey : String
  issuedAt : Int

variable (prim : Primitives)

/-- Ed25519 public key: canonical unpadded base64 of 32 bytes. -/
def isValidIdentityKeyB64 (value : String) : Bool :=
  value.utf8ByteSize == identityKeyB64Len && (prim.decodeB64 value).any fun raw => raw.length == 32

namespace HandoverBody

/-- The labelled field at a line index. -/
def field (lines : List String) (index : Nat) (label : String) : Result String :=
  okOr ((lines[index]?).bind fun line => labeled line label) (invalid "handover label")

/-- A field that must pass a check. -/
def checked (valid : String → Bool) (error : String) (lines : List String) (index : Nat)
    (label : String) : Result String := do
  let value ← field lines index label
  refuseIf (¬ valid value) (invalid error)
  return value

/-- A user or channel id. -/
def ulid : List String → Nat → String → Result String :=
  checked isValidUlidId "handover user or channel id"

def device : List String → Nat → String → Result String :=
  checked isValidDeviceIdHex "handover device id"

def key : List String → Nat → String → Result String :=
  checked (isValidIdentityKeyB64 prim) "handover identity key"

/-- Strict parse: exactly ten lines in order, nothing trimmed or normalized. -/
def parse (body : String) : Result HandoverBody := do
  refuseIf (maxHandoverBodyLen < body.utf8ByteSize) (invalid "handover body too long")
  refuseIf ('\r' ∈ body.toList) (invalid "handover body contains CR")
  let lines := splitChar '\n' body
  refuseIf (lines.length ≠ 10) (invalid "handover body must have exactly 10 lines")
  refuseIf (lines[0]? ≠ some contextHandover ∨ lines[1]? ≠ some "v:1")
    (invalid "handover context or format version")
  let channelId ← ulid lines 2 "channel_id"
  let fromUserId ← ulid lines 3 "from_user_id"
  let fromDeviceId ← device lines 4 "from_device_id"
  let fromIdentityKey ← key prim lines 5 "from_identity_key"
  let toUserId ← ulid lines 6 "to_user_id"
  let toDeviceId ← device lines 7 "to_device_id"
  let toIdentityKey ← key prim lines 8 "to_identity_key"
  let issuedAtText ← field lines 9 "issued_at"
  let issuedAt ← okOr ((parseCanonicalDecimal issuedAtText).filter fun v => v ≤ maxCanonicalInt)
    (invalid "handover issued_at")
  return {
    channelId := channelId
    fromUserId := fromUserId
    fromDeviceId := fromDeviceId
    fromIdentityKey := fromIdentityKey
    toUserId := toUserId
    toDeviceId := toDeviceId
    toIdentityKey := toIdentityKey
    issuedAt := issuedAt }

/-- The one accepted text of a statement. -/
def text (b : HandoverBody) : String :=
  "\n".intercalate [contextHandover, "v:1", "channel_id" ++ ":" ++ b.channelId,
    "from_user_id" ++ ":" ++ b.fromUserId, "from_device_id" ++ ":" ++ b.fromDeviceId,
    "from_identity_key" ++ ":" ++ b.fromIdentityKey, "to_user_id" ++ ":" ++ b.toUserId,
    "to_device_id" ++ ":" ++ b.toDeviceId, "to_identity_key" ++ ":" ++ b.toIdentityKey,
    "issued_at" ++ ":" ++ b.issuedAt.repr]

theorem eq_of_checked {valid : String → Bool} {error : String} {lines : List String} {index : Nat}
    {label value : String} (h : checked valid error lines index label = .ok value) :
    lines[index]? = some (label ++ ":" ++ value) := by
  unfold checked at h
  simp only [bind_eq_ok, refuseIf_eq_ok, pure_eq_ok] at h
  obtain ⟨value', hval, -, -, rfl⟩ := h
  exact eq_of_labeled_line hval

variable {prim}

/-- **An accepted statement is the text of its content.** -/
theorem text_of_parse {s : String} {b : HandoverBody} (h : parse prim s = .ok b) : s = b.text := by
  unfold parse at h
  simp only [bind_eq_ok, refuseIf_eq_ok, okOr_eq_ok, pure_eq_ok, not_or, not_not] at h
  obtain ⟨-, -, -, -, -, hlin, -, ⟨hcon, hfor⟩, channelId, hcha, fromUserId, hfromUser,
    fromDeviceId, hfromDevice, fromIdentityKey, hfromKey, toUserId, htoUser, toDeviceId, htoDevice,
    toIdentityKey, htoKey, issuedAtText, hissuedAtText, issuedAt, hissuedAt, rfl⟩ := h
  have hissuedAt' := eq_repr_of_parseCanonicalDecimal (filter_eq_some_iff.mp hissuedAt).1
  have hall : splitChar '\n' s = [contextHandover, "v:1", "channel_id" ++ ":" ++ channelId,
      "from_user_id" ++ ":" ++ fromUserId, "from_device_id" ++ ":" ++ fromDeviceId,
      "from_identity_key" ++ ":" ++ fromIdentityKey, "to_user_id" ++ ":" ++ toUserId,
      "to_device_id" ++ ":" ++ toDeviceId, "to_identity_key" ++ ":" ++ toIdentityKey,
      "issued_at" ++ ":" ++ issuedAtText] := by
    refine eq_of_getElem?_lt hlin fun i hi => ?_
    replace hi : i < 10 := hi
    interval_cases i
    · exact hcon
    · exact hfor
    · exact eq_of_checked hcha
    · exact eq_of_checked hfromUser
    · exact eq_of_checked hfromDevice
    · exact eq_of_checked hfromKey
    · exact eq_of_checked htoUser
    · exact eq_of_checked htoDevice
    · exact eq_of_checked htoKey
    · exact eq_of_labeled_line hissuedAtText
  have hjoin := intercalate_splitChar '\n' s
  rw [hall, hissuedAt'] at hjoin
  exact hjoin.symm

end HandoverBody

/-! ## The commit AD -/

theorem length_asBytes (s : String) : (asBytes s).length = s.utf8ByteSize := rfl

theorem asBytes_inj {s t : String} (h : asBytes s = asBytes t) : s = t := by
  have harr : s.toUTF8 = t.toUTF8 := ByteArray.ext (Array.toList_inj.mp h)
  exact String.toByteArray_inj.mp harr

/-- The number two big-endian bytes spell. -/
def u16OfBeBytes : List UInt8 → Option Nat
  | [high, low] => some (high.toNat * 256 + low.toNat)
  | _ => none

theorem u16OfBeBytes_u16BeBytes {n : Nat} (h : n ≤ 65535) :
    u16OfBeBytes (u16BeBytes n) = some n := by
  show some ((UInt8.ofNat (n / 256)).toNat * 256 + (UInt8.ofNat n).toNat) = some n
  rw [UInt8.toNat_ofNat', UInt8.toNat_ofNat', some.injEq]
  omega

/-- The `u16` lengths of the AD. -/
def u16Code : LengthCode UInt8 where
  code := u16BeBytes
  width := 2
  bound := 65535
  length_code := fun _ => rfl
  code_inj := fun {m n} hm hn h => by
    have hread := congrArg u16OfBeBytes h
    rw [u16OfBeBytes_u16BeBytes hm, u16OfBeBytes_u16BeBytes hn] at hread
    exact some.inj hread

variable {out : List UInt8}

theorem pushAdField_eq_ok {bytes out' : List UInt8} :
    pushAdField out bytes = .ok out' ↔ bytes.length ≤ 65535 ∧ out' = out ++ u16Code.frame bytes := by
  unfold pushAdField
  simp only [bind_eq_ok, refuseIf_eq_ok, pure_eq_ok, append_assoc]
  constructor
  · rintro ⟨-, hlen, rfl⟩
    exact ⟨by omega, rfl⟩
  · rintro ⟨hlen, rfl⟩
    exact ⟨(), by omega, rfl⟩

/-- The bytes of a signature, where it has any. -/
def rawSignature (signature : String) : List UInt8 := (prim.decodeB64 signature).getD []

variable {prim}

theorem decodeSignatureB64_eq_ok {signature : String} {raw : List UInt8}
    (h : decodeSignatureB64 prim signature = .ok raw) :
    prim.decodeB64 signature = some raw ∧ rawSignature prim signature = raw ∧ raw.length = 64 := by
  unfold decodeSignatureB64 at h
  simp only [bind_eq_ok, refuseIf_eq_ok, okOr_eq_ok, pure_eq_ok, not_not] at h
  obtain ⟨-, -, raw', hraw, -, hlen, rfl⟩ := h
  refine ⟨hraw, ?_, hlen⟩
  unfold rawSignature
  rw [hraw, getD_some]

/-- What the AD asks of one signed text: a body within a limit and a signature
that decodes to 64 bytes. -/
structure AdPart (prim : Primitives) (limit : Nat) (body signature : String) : Prop where
  body_le : body.utf8ByteSize ≤ limit
  decodes : prim.decodeB64 signature = some (rawSignature prim signature)
  length_raw : (rawSignature prim signature).length = 64

variable (prim) in
def handoverFields (handovers : List SignedHandover) : List (List UInt8) :=
  handovers.flatMap fun handover => [asBytes handover.body, rawSignature prim handover.signature]

theorem pushHandovers_eq_ok : ∀ {handovers : List SignedHandover} {out out' : List UInt8},
    pushHandovers prim out handovers = .ok out' →
      out' = out ++ u16Code.frames (handoverFields prim handovers) ∧ ∀ handover ∈ handovers,
          AdPart prim maxHandoverBodyLen handover.body handover.signature
  | [], out, out', h => by
    cases h
    exact ⟨(append_nil out).symm, by simp⟩
  | handover :: rest, out, out', h => by
    unfold pushHandovers at h
    simp only [bind_eq_ok, refuseIf_eq_ok, pushAdField_eq_ok] at h
    obtain ⟨-, hbd, _, ⟨-, rfl⟩, raw, hraw, _, ⟨-, rfl⟩, hrs⟩ := h
    obtain ⟨hdec, rfl, hlen⟩ := decodeSignatureB64_eq_ok hraw
    obtain ⟨rfl, hpar⟩ := pushHandovers_eq_ok hrs
    refine ⟨?_, ?_⟩
    · show _ = out ++ (u16Code.frame (asBytes handover.body) ++
        (u16Code.frame (rawSignature prim handover.signature) ++
          u16Code.frames (handoverFields prim rest)))
      simp
    · intro other hoth
      rcases mem_cons.mp hoth with rfl | hoth
      · exact ⟨by omega, hdec, hlen⟩
      · exact hpar other hoth

/-- The layout of a commit AD: context, body, signature, the two-byte count and
the fields of the handover chain. -/
structure AdLayout (prim : Primitives) (list : SeatList) (out : List UInt8) : Prop where
  out_eq : out = u16Code.frame (asBytes contextCommitAd) ++ (u16Code.frame (asBytes list.body) ++
    (u16Code.frame (rawSignature prim list.signature) ++ (u16BeBytes list.handovers.length ++
      u16Code.frames (handoverFields prim list.handovers))))
  length_le : out.length ≤ maxCommitAdLen
  list_part : AdPart prim maxSeatListBodyLen list.body list.signature
  handover_parts : ∀ handover ∈ list.handovers,
    AdPart prim maxHandoverBodyLen handover.body handover.signature
  handovers_le : list.handovers.length ≤ maxSeatListHandovers

variable {list : SeatList}

theorem layout_of_commitAd (h : list.commitAd prim = .ok out) : AdLayout prim list out := by
  unfold SeatList.commitAd at h
  simp only [bind_eq_ok, refuseIf_eq_ok, pushAdField_eq_ok, pure_eq_ok] at h
  obtain ⟨-, hbd, -, hcnt, _, ⟨-, rfl⟩, _, ⟨-, rfl⟩, raw, hraw, _, ⟨-, rfl⟩, out', hout, -, hlen,
    rfl⟩ := h
  obtain ⟨hdec, rfl, hlenRaw⟩ := decodeSignatureB64_eq_ok hraw
  obtain ⟨heq, hpar⟩ := pushHandovers_eq_ok hout
  refine ⟨?_, by omega, ⟨by omega, hdec, hlenRaw⟩, hpar, by omega⟩
  rw [heq]
  simp

theorem length_handoverFields (handovers : List SignedHandover) :
    (handoverFields prim handovers).length = 2 * handovers.length := by
  induction handovers with
  | nil => rfl
  | cons handover rest ih =>
    show (handoverFields prim rest).length + 1 + 1 = 2 * (rest.length + 1)
    omega

theorem length_le_of_mem_handoverFields {handovers : List SignedHandover}
    (hpar : ∀ handover ∈ handovers,
      AdPart prim maxHandoverBodyLen handover.body handover.signature) :
    ∀ field ∈ handoverFields prim handovers, field.length ≤ 65535 := by
  intro field hfiel
  obtain ⟨handover, hmem, hfiel⟩ := mem_flatMap.mp hfiel
  have hpr := hpar handover hmem
  have hbd := hpr.body_le
  have hraw := hpr.length_raw
  simp only [maxHandoverBodyLen] at hbd
  simp only [mem_cons, not_mem_nil, or_false] at hfiel
  rcases hfiel with rfl | rfl
  · rw [length_asBytes]
    omega
  · omega

variable (hb64 : ∀ s t raw, prim.decodeB64 s = some raw → prim.decodeB64 t = some raw → s = t)

include hb64 in
theorem AdPart.signature_inj {limit limit' : Nat} {body body' signature signature' : String}
    (h : AdPart prim limit body signature) (h' : AdPart prim limit' body' signature')
    (hraw : rawSignature prim signature = rawSignature prim signature') :
    signature = signature' := by
  refine hb64 _ _ _ h.decodes ?_
  rw [hraw]
  exact h'.decodes

include hb64 in
theorem handoverFields_inj : ∀ {hs hs' : List SignedHandover},
    (∀ handover ∈ hs, AdPart prim maxHandoverBodyLen handover.body handover.signature) →
    (∀ handover ∈ hs', AdPart prim maxHandoverBodyLen handover.body handover.signature) →
    handoverFields prim hs = handoverFields prim hs' → hs = hs'
  | [], [], _, _, _ => rfl
  | [], _ :: _, _, _, h => absurd (congrArg List.length h) (by simp [length_handoverFields])
  | _ :: _, [], _, _, h => absurd (congrArg List.length h) (by simp [length_handoverFields])
  | handover :: rest, handover' :: rest', hpar, hpar', h => by
    have hcn : asBytes handover.body :: rawSignature prim handover.signature ::
        handoverFields prim rest = asBytes handover'.body ::
          rawSignature prim handover'.signature :: handoverFields prim rest' := h
    simp only [List.cons.injEq] at hcn
    obtain ⟨hbd, hraw, hrs⟩ := hcn
    have hsig := AdPart.signature_inj hb64 (hpar handover mem_cons_self)
      (hpar' handover' mem_cons_self) hraw
    have ih := handoverFields_inj (fun x hx => hpar x (mem_cons_of_mem _ hx))
      (fun x hx => hpar' x (mem_cons_of_mem _ hx)) hrs
    rw [ih]
    cases handover
    cases handover'
    simp only at hbd hsig
    rw [asBytes_inj hbd, hsig]

include hb64 in
theorem AdLayout.inj {list' : SeatList} (h : AdLayout prim list out) (h' : AdLayout prim list' out)
    : list.body = list'.body ∧ list.signature = list'.signature ∧
      list.handovers = list'.handovers := by
  have hbodyLe := h.list_part.body_le
  have hbodyLe' := h'.list_part.body_le
  have hrawLe := h.list_part.length_raw
  have hrawLe' := h'.list_part.length_raw
  have hcountLe := h.handovers_le
  have hcountLe' := h'.handovers_le
  simp only [maxSeatListBodyLen, maxSeatListHandovers] at hbodyLe hbodyLe' hcountLe hcountLe'
  have heq := h.out_eq.symm.trans h'.out_eq
  obtain ⟨-, heq⟩ := LengthCode.frame_append_inj (c := u16Code) (by decide) (by decide) heq
  obtain ⟨hbd, heq⟩ := LengthCode.frame_append_inj (c := u16Code)
    (show list.body.utf8ByteSize ≤ 65535 by omega)
    (show list'.body.utf8ByteSize ≤ 65535 by omega) heq
  obtain ⟨hraw, heq⟩ := LengthCode.frame_append_inj (c := u16Code)
    (show _ ≤ 65535 by omega) (show _ ≤ 65535 by omega) heq
  obtain ⟨hcnt, heq⟩ := LengthCode.code_append_inj (c := u16Code)
    (show _ ≤ 65535 by omega) (show _ ≤ 65535 by omega) heq
  have hfie : handoverFields prim list.handovers = handoverFields prim list'.handovers :=
    LengthCode.frames_inj (by rw [length_handoverFields, length_handoverFields, hcnt])
      (length_le_of_mem_handoverFields h.handover_parts)
      (length_le_of_mem_handoverFields h'.handover_parts) heq
  exact ⟨asBytes_inj hbd, AdPart.signature_inj hb64 h.list_part h'.list_part hraw,
    handoverFields_inj hb64 h.handover_parts h'.handover_parts hfie⟩

variable (prim) in
/-- Every number the AD writes as two bytes. -/
def SeatList.adLengths (list : SeatList) : List Nat :=
  [(asBytes contextCommitAd).length, (asBytes list.body).length,
    (rawSignature prim list.signature).length, list.handovers.length] ++
    (handoverFields prim list.handovers).map List.length

theorem AdLayout.lengths_le (h : AdLayout prim list out) :
    ∀ n ∈ list.adLengths prim, n ≤ 65535 := by
  have hbd := h.list_part.body_le
  have hraw := h.list_part.length_raw
  have hcnt := h.handovers_le
  simp only [maxSeatListBodyLen, maxSeatListHandovers] at hbd hcnt
  intro n hn
  rcases mem_append.mp hn with hn | hn
  · simp only [mem_cons, not_mem_nil, or_false] at hn
    rcases hn with rfl | rfl | rfl | rfl
    · decide
    · rw [length_asBytes]
      omega
    · omega
    · omega
  · obtain ⟨field, hfiel, rfl⟩ := mem_map.mp hn
    exact length_le_of_mem_handoverFields h.handover_parts field hfiel

include hb64 in
/-- **The commit AD is an injective encoding.** Given that base64 decoding tells
its accepted strings apart: lists with one AD have one body, one signature and
one chain of handovers; an AD has the layout above, at most 16383 bytes, and each
number in it reads back from its two bytes; and a handover statement has one
accepted text. -/
theorem commitAd_injective : (∀ list list' out, SeatList.commitAd prim list = .ok out →
      SeatList.commitAd prim list' = .ok out →
        list.body = list'.body ∧ list.signature = list'.signature ∧
          list.handovers = list'.handovers) ∧
    (∀ list out, SeatList.commitAd prim list = .ok out →
      AdLayout prim list out ∧ out.length ≤ 16383 ∧
        ∀ n ∈ list.adLengths prim, u16OfBeBytes (u16BeBytes n) = some n) ∧
    ∀ s s' b, HandoverBody.parse prim s = .ok b → HandoverBody.parse prim s' = .ok b → s = s' := by
  refine ⟨fun list list' out h h' => ?_, fun list out h => ?_, fun s s' b h h' => ?_⟩
  · exact AdLayout.inj hb64 (layout_of_commitAd h) (layout_of_commitAd h')
  · have hlayout := layout_of_commitAd h
    exact ⟨hlayout, hlayout.length_le, fun n hn =>
      u16OfBeBytes_u16BeBytes (hlayout.lengths_le n hn)⟩
  · rw [HandoverBody.text_of_parse h, HandoverBody.text_of_parse h']

open Sample

theorem decodeB64_inj (s t : String) (raw : List UInt8)
    (hs : primitives.decodeB64 s = some raw)
    (ht : primitives.decodeB64 t = some raw) : s = t := by
  have hsig : ∀ text, primitives.decodeB64 text = some raw → text = signature := by
    intro text h
    by_contra hne
    exact absurd h (by simp [primitives, hne])
  rw [hsig s hs, hsig t ht]

set_option maxRecDepth 10000 in
theorem commitAd_genesis : ((SeatList.commitAd primitives genesisRow).toOption).isSome = true := by
  decide

/-- The sample's genesis list has an AD, and no other list has the same. -/
theorem commitAd_injective_genesis :
    ∃ out, SeatList.commitAd primitives genesisRow = .ok out ∧ out.length ≤ 16383 ∧
      ¬ ∃ list, list.body ≠ genesisRow.body ∧
        SeatList.commitAd primitives list = .ok out := by
  have hinj := commitAd_injective decodeB64_inj
  cases h : SeatList.commitAd primitives genesisRow with
  | error e => exact absurd commitAd_genesis (by rw [h]; simp [Except.toOption])
  | ok out =>
    refine ⟨out, rfl, (hinj.2.1 _ out h).2.1, ?_⟩
    rintro ⟨list, hne, hlist⟩
    exact hne (hinj.1 list _ out hlist h).1

end SlogaBackend.Mls
