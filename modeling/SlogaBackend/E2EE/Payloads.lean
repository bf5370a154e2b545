import SlogaBackend.Mls.SeatListCodec
import SlogaBackend.Mls.TextEpochs

/-!
# What an identity key signs

A device's Ed25519 identity key signs eight kinds of text: its own identity, its fallback and
one-time keys, a device claim, an MLS credential binding, a join intent, a seat list and an
ownership handover. Each is a sequence of lines that starts with a context.

One field is free text: a key id is any non-empty string of at most 32 bytes, so it may hold line
breaks and imitate the labels around it. It is still found again. The lines before it are read
from the front, each up to its first line break, and what stands behind it is the 43 letters of a
key, read from the end.

`signed_statement_unique` is the result over all eight: a text is signed for one statement only.
-/

namespace SlogaBackend.E2EE

open Mls

/-! ## Lines -/

theorem intercalate_cons_cons {α : Type*} (x : α) (l l' : List α) (ls : List (List α)) :
    [x].intercalate (l :: l' :: ls) = l ++ x :: [x].intercalate (l' :: ls) := by
  simp [List.intercalate, List.intersperse]

/-- **Lines are read from the front.** Two joined sequences whose lines, the last apart, hold no
separator are equal only when their lines are. -/
theorem intercalate_concat_inj {α : Type*} {x : α} :
    ∀ {as bs : List (List α)} {a b : List α}, as.length = bs.length → (∀ l ∈ as, x ∉ l) →
      (∀ l ∈ bs, x ∉ l) → [x].intercalate (as ++ [a]) = [x].intercalate (bs ++ [b]) →
      as = bs ∧ a = b
  | [], [], a, b, _, _, _, h => by simpa using h
  | l :: as, m :: bs, a, b, hlen, has, hbs, h => by
    obtain ⟨y, ys, hys⟩ := List.exists_cons_of_ne_nil (l := as ++ [a]) (by simp)
    obtain ⟨z, zs, hzs⟩ := List.exists_cons_of_ne_nil (l := bs ++ [b]) (by simp)
    rw [cons_append, cons_append, hys, hzs, intercalate_cons_cons,
      intercalate_cons_cons] at h
    obtain ⟨hhd, htl⟩ := eq_of_append_cons_eq (has l mem_cons_self) (hbs m mem_cons_self) h
    rw [← hys, ← hzs] at htl
    obtain ⟨hlin, hls⟩ := intercalate_concat_inj (Nat.succ.inj hlen)
      (fun k hk => has k (mem_cons_of_mem l hk))
      (fun k hk => hbs k (mem_cons_of_mem m hk)) htl
    exact ⟨by rw [hhd, hlin], hls⟩

theorem intercalate_append_cons {α : Type*} (x : α) (m : List α) (ls : List (List α)) :
    ∀ as : List (List α),
      [x].intercalate (as ++ m :: ls) = [x].intercalate (as ++ [[x].intercalate (m :: ls)])
  | [] => by simp
  | [l] => by
    rw [List.singleton_append, intercalate_cons_cons, List.singleton_append, intercalate_cons_cons,
      List.intercalate_singleton]
  | l :: l' :: as => by
    have ih := intercalate_append_cons x m ls (l' :: as)
    rw [cons_append, cons_append] at ih
    rw [cons_append, cons_append, intercalate_cons_cons, ih, cons_append,
      cons_append, intercalate_cons_cons]

/-- The text of some lines. -/
def joinLines (lines : List String) : String := "\n".intercalate lines

/-- A text without line breaks. -/
def OneLine (s : String) : Prop := '\n' ∉ s.toList

instance (s : String) : Decidable (OneLine s) := inferInstanceAs (Decidable (_ ∉ _))

variable {a b key deviceId keyId keyId' key' deviceId' : String}

theorem joinLines_concat_inj (as bs : List String) (hlen : as.length = bs.length)
    (has : ∀ s ∈ as, OneLine s) (hbs : ∀ s ∈ bs, OneLine s)
    (h : joinLines (as ++ [a]) = joinLines (bs ++ [b])) : as = bs ∧ a = b := by
  have hlis := congrArg String.toList h
  simp only [joinLines, String.toList_intercalate, map_append, map_cons, List.map_nil]
    at hlis
  obtain ⟨hlin, hls⟩ := intercalate_concat_inj (x := '\n') (by simpa using hlen)
    (by simpa [OneLine] using has) (by simpa [OneLine] using hbs) hlis
  exact ⟨List.map_injective_iff.mpr (fun _ _ => String.toList_inj.mp) hlin,
    String.toList_inj.mp hls⟩

theorem joinLines_append_cons (as : List String) (b : String) (rest : List String) :
    joinLines (as ++ b :: rest) = joinLines (as ++ [joinLines (b :: rest)]) := by
  refine String.toList_inj.mp ?_
  simp only [joinLines, String.toList_intercalate, map_append, map_cons, List.map_nil]
  exact intercalate_append_cons _ _ _ _

theorem toList_joinLines_pair (a b : String) :
    (joinLines [a, b]).toList = a.toList ++ '\n' :: b.toList := by
  simp only [joinLines, String.toList_intercalate, map_cons, List.map_nil]
  show ['\n'].intercalate _ = _
  rw [intercalate_cons_cons, List.intercalate_singleton]

theorem OneLine.append {s t : String} (hs : OneLine s) (ht : OneLine t) : OneLine (s ++ t) := by
  unfold OneLine
  rw [String.toList_append, mem_append, not_or]
  exact ⟨hs, ht⟩

theorem OneLine.of_all {p : Char → Bool} {s : String} (hp : p '\n' = false)
    (h : s.toList.all p = true) : OneLine s := by
  intro hmem
  have hbre := all_eq_true.mp h _ hmem
  rw [hp] at hbre
  cases hbre

theorem oneLine_natRepr (n : Nat) : OneLine n.repr := by
  intro hmem
  rw [Nat.toList_repr] at hmem
  exact absurd (Nat.isDigit_of_mem_toDigits (by decide) (by decide) hmem) (by decide)

theorem oneLine_repr (v : Int) : OneLine v.repr := by
  cases v with
  | ofNat n => exact oneLine_natRepr n
  | negSucc n => exact OneLine.append (s := "-") (by decide) (oneLine_natRepr (n + 1))

variable {v v' : Int}

theorem intRepr_injective {w : Int} (h : v.repr = w.repr) : v = w := by
  cases w with
  | ofNat n => exact eq_of_repr_eq h
  | negSucc n =>
    cases v with
    | ofNat m => exact (eq_of_repr_eq h.symm).symm
    | negSucc m =>
      have hdig : "-" ++ (m + 1).repr = "-" ++ (n + 1).repr := h
      rw [Nat.succ.inj (natRepr_injective ((String.append_right_inj _).mp hdig))]

/-! ## The builders -/

def signContextIdentity : String := "acutest:e2ee:identity"

def signContextFallback : String := "acutest:e2ee:fallback"

def signContextOneTime : String := "acutest:e2ee:one-time"

def contextDeviceClaim : String := "acutest:e2ee:device-claim"

def contextMlsCredential : String := "acutest:e2ee:mls-credential:v1"

def contextMlsJoin : String := "acutest:e2ee:mls-join:v1"

/-- Canonical signed payload for a Curve25519 key in a given context. -/
def signedKeyPayload (context : String) (protocolVersion : Int) (deviceId keyId key : String) :
    String :=
  joinLines [context, "protocol_version:" ++ protocolVersion.repr, "device_id:" ++ deviceId,
    "key_id:" ++ keyId, "key:" ++ key]

/-- Canonical payload covered by the identity self-signature. -/
def signedPayload (protocolVersion : Int) (deviceId ed25519Key curve25519Key : String) : String :=
  joinLines [signContextIdentity, "protocol_version:" ++ protocolVersion.repr,
    "device_id:" ++ deviceId, "ed25519:" ++ ed25519Key, "curve25519:" ++ curve25519Key]

/-- Canonical payload for a device-claim proof. -/
def claimPayload (deviceId sessionId nonce : String) : String :=
  joinLines [contextDeviceClaim, "device_id:" ++ deviceId, "session_id:" ++ sessionId,
    "nonce:" ++ nonce]

def mlsCredentialBindingPayload (userId deviceId mlsSignatureKey identityEd25519Key : String) :
    String :=
  joinLines [contextMlsCredential, userId, deviceId, mlsSignatureKey, identityEd25519Key]

def mlsJoinIntentPayload (userId deviceId groupId keyPackageRef : String) : String :=
  joinLines [contextMlsJoin, userId, deviceId, groupId, keyPackageRef]

/-! ## What the routes admit -/

/-- A letter of the base64 alphabet. -/
def isBase64Char (c : Char) : Bool := c.isAlphanum || c == '+' || c == '/'

def isBase64Key (key : String) : Bool := key.length == 43 && key.toList.all isBase64Char

/-- `check_signed_key`: any non-empty key id of at most 32 bytes. -/
def isValidKeyId (keyId : String) : Bool := keyId != "" && keyId.utf8ByteSize ≤ 32

/-- A KeyPackage reference: base64, at most 64 letters. -/
def isValidKeyPackageRef (reference : String) : Bool :=
  reference != "" && reference.utf8ByteSize ≤ 64 && reference.toList.all isBase64Char

theorem oneLine_of_isBase64Key (h : isBase64Key key = true) : OneLine key :=
  OneLine.of_all (p := isBase64Char) (by decide) (by
    rw [isBase64Key, and_eq_true] at h
    exact h.2)

theorem length_of_isBase64Key (h : isBase64Key key = true) : key.toList.length = 43 := by
  rw [isBase64Key, and_eq_true, beq_iff_eq] at h
  exact h.1

theorem oneLine_of_isValidDeviceIdHex (h : isValidDeviceIdHex deviceId = true) : OneLine deviceId :=
  OneLine.of_all (p := isLowerHexChar) (by decide) (by
    rw [isValidDeviceIdHex, and_eq_true] at h
    exact h.2)

theorem oneLine_of_isValidGroupId {groupId : String} (h : isValidGroupId groupId = true) :
    OneLine groupId :=
  OneLine.of_all (p := isLowerHexChar) (by decide) (by
    rw [isValidGroupId, and_eq_true] at h
    exact h.2)

/-! ## Statements -/

/-- The kinds of statement an identity key signs. -/
inductive Kind where
  | identity
  | fallbackKey
  | oneTimeKey
  | deviceClaim
  | mlsCredential
  | mlsJoin
  | seatList
  | handover

/-- The first line of a statement. -/
def Kind.context : Kind → String
  | identity => signContextIdentity
  | fallbackKey => signContextFallback
  | oneTimeKey => signContextOneTime
  | deviceClaim => contextDeviceClaim
  | mlsCredential => contextMlsCredential
  | mlsJoin => contextMlsJoin
  | seatList => contextSeatList
  | handover => contextHandover

/-- A statement with its content: the arguments of its builder, or what its parser reads. -/
inductive Statement : Kind → Type where
  | identity (protocolVersion : Int) (deviceId ed25519Key curve25519Key : String) :
      Statement .identity
  | fallbackKey (protocolVersion : Int) (deviceId keyId key : String) : Statement .fallbackKey
  | oneTimeKey (protocolVersion : Int) (deviceId keyId key : String) : Statement .oneTimeKey
  | deviceClaim (deviceId sessionId nonce : String) : Statement .deviceClaim
  | mlsCredential (userId deviceId mlsSignatureKey identityEd25519Key : String) :
      Statement .mlsCredential
  | mlsJoin (userId deviceId groupId keyPackageRef : String) : Statement .mlsJoin
  | seatList (body : SeatListBody) : Statement .seatList
  | handover (body : HandoverBody) : Statement .handover

variable (prim : Primitives)

/-- `s` is a text the statement is signed as: what its builder makes of arguments the routes admit,
or a text its parser reads it from. -/
def Statement.SignedAs : {k : Kind} → Statement k → String → Prop
  | _, .identity protocolVersion deviceId ed25519Key curve25519Key, s =>
    isValidDeviceIdHex deviceId = true ∧ isBase64Key ed25519Key = true ∧
      isBase64Key curve25519Key = true ∧
      s = signedPayload protocolVersion deviceId ed25519Key curve25519Key
  | _, .fallbackKey protocolVersion deviceId keyId key, s =>
    isValidDeviceIdHex deviceId = true ∧ isValidKeyId keyId = true ∧ isBase64Key key = true ∧
      s = signedKeyPayload signContextFallback protocolVersion deviceId keyId key
  | _, .oneTimeKey protocolVersion deviceId keyId key, s =>
    isValidDeviceIdHex deviceId = true ∧ isValidKeyId keyId = true ∧ isBase64Key key = true ∧
      s = signedKeyPayload signContextOneTime protocolVersion deviceId keyId key
  | _, .deviceClaim deviceId sessionId nonce, s =>
    isValidDeviceIdHex deviceId = true ∧ OneLine sessionId ∧
      s = claimPayload deviceId sessionId nonce
  | _, .mlsCredential userId deviceId mlsSignatureKey identityEd25519Key, s =>
    OneLine userId ∧ isValidDeviceIdHex deviceId = true ∧ isBase64Key mlsSignatureKey = true ∧
      isBase64Key identityEd25519Key = true ∧
      s = mlsCredentialBindingPayload userId deviceId mlsSignatureKey identityEd25519Key
  | _, .mlsJoin userId deviceId groupId keyPackageRef, s =>
    OneLine userId ∧ isValidDeviceIdHex deviceId = true ∧ isValidGroupId groupId = true ∧
      isValidKeyPackageRef keyPackageRef = true ∧
      s = mlsJoinIntentPayload userId deviceId groupId keyPackageRef
  | _, .seatList body, s => SeatListBody.parse s = .ok body
  | _, .handover body, s => HandoverBody.parse prim s = .ok body

variable {prim} {k : Kind} {st : Statement k} {s : String}

/-! ## Which kind a text is -/

/-- **Every kind has its own context.** -/
theorem Kind.context_injective : Function.Injective Kind.context := by
  intro k k' h
  cases k <;> cases k' <;> first
    | rfl
    | exact absurd h (by decide)

theorem Kind.oneLine_context (k : Kind) : OneLine k.context := by
  cases k <;> decide

/-- **A signed text starts with the context of its kind**, on a line of its own. -/
theorem context_of_signedAs (h : st.SignedAs prim s) : ∃ rest, s = joinLines [k.context, rest] := by
  -- all but the first line are the rest
  have hspl : ∀ lines : List String, lines ≠ [] →
      ∃ rest, joinLines (k.context :: lines) = joinLines [k.context, rest] := by
    intro lines hne
    obtain ⟨line, lines, rfl⟩ := List.exists_cons_of_ne_nil hne
    exact ⟨_, joinLines_append_cons [k.context] line lines⟩
  cases st with
  | deviceClaim =>
    obtain ⟨-, -, rfl⟩ := h
    exact hspl _ (by simp)
  | mlsCredential | mlsJoin =>
    obtain ⟨-, -, -, -, rfl⟩ := h
    exact hspl _ (by simp)
  | seatList body =>
    rw [(SeatListBody.spelling_of_parse h).text_eq]
    exact hspl _ (by simp)
  | handover body =>
    rw [HandoverBody.text_of_parse h]
    exact hspl _ (by simp)
  | _ =>
    obtain ⟨-, -, -, rfl⟩ := h
    exact hspl _ (by simp)

theorem kind_of_signedAs {k' : Kind} {st' : Statement k'} (h : st.SignedAs prim s)
    (h' : st'.SignedAs prim s) : k = k' := by
  obtain ⟨rest, hrs⟩ := context_of_signedAs h
  obtain ⟨rest', hrs'⟩ := context_of_signedAs h'
  obtain ⟨hcont, -⟩ := joinLines_concat_inj [k.context] [k'.context] rfl
    (by simpa using k.oneLine_context) (by simpa using k'.oneLine_context) (hrs.symm.trans hrs')
  exact Kind.context_injective (cons.inj hcont).1

/-! ## What it says -/

/-- **A key id is found whatever it holds**: the key behind it has a fixed length. -/
theorem keyLines_inj (hkey : key.toList.length = key'.toList.length)
    (h : joinLines ["key_id:" ++ keyId, "key:" ++ key] =
      joinLines ["key_id:" ++ keyId', "key:" ++ key']) : keyId = keyId' ∧ key = key' := by
  have hlis := congrArg String.toList h
  rw [toList_joinLines_pair, toList_joinLines_pair] at hlis
  obtain ⟨hfron, hbc⟩ := List.append_inj' hlis (by
    rw [length_cons, length_cons, String.toList_append, String.toList_append,
      length_append, length_append, hkey])
  have hid := String.toList_inj.mp hfron
  have hky := String.toList_inj.mp (cons.inj hbc).2
  exact ⟨(String.append_right_inj _).mp hid, (String.append_right_inj _).mp hky⟩

theorem signedKeyPayload_eq (context : String) (v : Int) (deviceId keyId key : String) :
    signedKeyPayload context v deviceId keyId key =
      joinLines ([context, "protocol_version:" ++ v.repr, "device_id:" ++ deviceId] ++
        [joinLines ["key_id:" ++ keyId, "key:" ++ key]]) :=
  joinLines_append_cons [_, _, _] _ _

theorem oneLine_protocolVersion (v : Int) : OneLine ("protocol_version:" ++ v.repr) :=
  OneLine.append (by decide) (oneLine_repr v)

theorem oneLine_deviceId (h : isValidDeviceIdHex deviceId = true) :
    OneLine ("device_id:" ++ deviceId) :=
  OneLine.append (by decide) (oneLine_of_isValidDeviceIdHex h)

theorem signedKeyPayload_inj {context : String} (hcon : OneLine context)
    (hdev : isValidDeviceIdHex deviceId = true) (hdev' : isValidDeviceIdHex deviceId' = true)
    (hkey : isBase64Key key = true) (hkey' : isBase64Key key' = true)
    (h : signedKeyPayload context v deviceId keyId key =
      signedKeyPayload context v' deviceId' keyId' key') :
    v = v' ∧ deviceId = deviceId' ∧ keyId = keyId' ∧ key = key' := by
  rw [signedKeyPayload_eq, signedKeyPayload_eq] at h
  obtain ⟨hlin, hls⟩ := joinLines_concat_inj
    [context, "protocol_version:" ++ v.repr, "device_id:" ++ deviceId]
    [context, "protocol_version:" ++ v'.repr, "device_id:" ++ deviceId'] rfl
    (by simpa using ⟨hcon, oneLine_protocolVersion v, oneLine_deviceId hdev⟩)
    (by simpa using ⟨hcon, oneLine_protocolVersion v', oneLine_deviceId hdev'⟩) h
  simp only [List.cons.injEq, String.append_right_inj, true_and, and_true] at hlin
  obtain ⟨hids, hky⟩ := keyLines_inj
    ((length_of_isBase64Key hkey).trans (length_of_isBase64Key hkey').symm) hls
  exact ⟨intRepr_injective hlin.1, hlin.2, hids, hky⟩

theorem signedPayload_inj {ed ed' curve curve' : String} (hdev : isValidDeviceIdHex deviceId = true)
    (hdev' : isValidDeviceIdHex deviceId' = true) (hed : isBase64Key ed = true)
    (hed' : isBase64Key ed' = true)
    (h : signedPayload v deviceId ed curve = signedPayload v' deviceId' ed' curve') :
    v = v' ∧ deviceId = deviceId' ∧ ed = ed' ∧ curve = curve' := by
  have hln : ∀ {key : String}, isBase64Key key = true → OneLine ("ed25519:" ++ key) :=
    fun hkey => OneLine.append (by decide) (oneLine_of_isBase64Key hkey)
  obtain ⟨hlin, hls⟩ := joinLines_concat_inj
    [_, "protocol_version:" ++ v.repr, "device_id:" ++ deviceId, "ed25519:" ++ ed]
    [_, "protocol_version:" ++ v'.repr, "device_id:" ++ deviceId', "ed25519:" ++ ed'] rfl
    (by simpa using ⟨Kind.oneLine_context .identity, oneLine_protocolVersion v,
      oneLine_deviceId hdev, hln hed⟩)
    (by simpa using ⟨Kind.oneLine_context .identity, oneLine_protocolVersion v',
      oneLine_deviceId hdev', hln hed'⟩) h
  simp only [List.cons.injEq, String.append_right_inj, true_and, and_true] at hlin hls
  exact ⟨intRepr_injective hlin.1, hlin.2.1, hlin.2.2, hls⟩

theorem claimPayload_inj {sessionId sessionId' nonce nonce' : String}
    (hdev : isValidDeviceIdHex deviceId = true) (hdev' : isValidDeviceIdHex deviceId' = true)
    (hses : OneLine sessionId) (hses' : OneLine sessionId')
    (h : claimPayload deviceId sessionId nonce = claimPayload deviceId' sessionId' nonce') :
    deviceId = deviceId' ∧ sessionId = sessionId' ∧ nonce = nonce' := by
  have hln : ∀ {id : String}, OneLine id → OneLine ("session_id:" ++ id) :=
    fun hid => OneLine.append (by decide) hid
  obtain ⟨hlin, hls⟩ := joinLines_concat_inj
    [_, "device_id:" ++ deviceId, "session_id:" ++ sessionId]
    [_, "device_id:" ++ deviceId', "session_id:" ++ sessionId'] rfl
    (by simpa using ⟨Kind.oneLine_context .deviceClaim, oneLine_deviceId hdev, hln hses⟩)
    (by simpa using ⟨Kind.oneLine_context .deviceClaim, oneLine_deviceId hdev', hln hses'⟩) h
  simp only [List.cons.injEq, String.append_right_inj, true_and, and_true] at hlin hls
  exact ⟨hlin.1, hlin.2, hls⟩

theorem bareLines_inj {context a' b' c c' d d' : String} (hcon : OneLine context)
    (ha : OneLine a) (ha' : OneLine a') (hb : OneLine b) (hb' : OneLine b') (hc : OneLine c)
    (hc' : OneLine c') (h : joinLines [context, a, b, c, d] = joinLines [context, a', b', c', d']) :
    a = a' ∧ b = b' ∧ c = c' ∧ d = d' := by
  obtain ⟨hlin, hls⟩ := joinLines_concat_inj [context, a, b, c] [context, a', b', c'] rfl (by simpa using ⟨hcon, ha, hb, hc⟩)
    (by simpa using ⟨hcon, ha', hb', hc'⟩) h
  simp only [List.cons.injEq, true_and, and_true] at hlin
  exact ⟨hlin.1, hlin.2.1, hlin.2.2, hls⟩

theorem statement_of_signedAs {st' : Statement k} (h : st.SignedAs prim s)
    (h' : st'.SignedAs prim s) : st = st' := by
  match st, st' with
  | .identity .., .identity .. =>
    obtain ⟨hdev, hed, -, hs⟩ := h
    obtain ⟨hdev', hed', -, hs'⟩ := h'
    obtain ⟨rfl, rfl, rfl, rfl⟩ := signedPayload_inj hdev hdev' hed hed' (hs.symm.trans hs')
    rfl
  | .fallbackKey .., .fallbackKey .. =>
    obtain ⟨hdev, -, hkey, hs⟩ := h
    obtain ⟨hdev', -, hkey', hs'⟩ := h'
    obtain ⟨rfl, rfl, rfl, rfl⟩ := signedKeyPayload_inj (Kind.oneLine_context .fallbackKey) hdev
      hdev' hkey hkey' (hs.symm.trans hs')
    rfl
  | .oneTimeKey .., .oneTimeKey .. =>
    obtain ⟨hdev, -, hkey, hs⟩ := h
    obtain ⟨hdev', -, hkey', hs'⟩ := h'
    obtain ⟨rfl, rfl, rfl, rfl⟩ := signedKeyPayload_inj (Kind.oneLine_context .oneTimeKey) hdev
      hdev' hkey hkey' (hs.symm.trans hs')
    rfl
  | .deviceClaim .., .deviceClaim .. =>
    obtain ⟨hdev, hses, hs⟩ := h
    obtain ⟨hdev', hses', hs'⟩ := h'
    obtain ⟨rfl, rfl, rfl⟩ := claimPayload_inj hdev hdev' hses hses' (hs.symm.trans hs')
    rfl
  | .mlsCredential .., .mlsCredential .. =>
    obtain ⟨huse, hdev, hkey, -, hs⟩ := h
    obtain ⟨huse', hdev', hkey', -, hs'⟩ := h'
    obtain ⟨rfl, rfl, rfl, rfl⟩ := bareLines_inj (Kind.oneLine_context .mlsCredential) huse huse'
      (oneLine_of_isValidDeviceIdHex hdev) (oneLine_of_isValidDeviceIdHex hdev')
      (oneLine_of_isBase64Key hkey) (oneLine_of_isBase64Key hkey') (hs.symm.trans hs')
    rfl
  | .mlsJoin .., .mlsJoin .. =>
    obtain ⟨huse, hdev, hgr, -, hs⟩ := h
    obtain ⟨huse', hdev', hgr', -, hs'⟩ := h'
    obtain ⟨rfl, rfl, rfl, rfl⟩ := bareLines_inj (Kind.oneLine_context .mlsJoin) huse huse'
      (oneLine_of_isValidDeviceIdHex hdev) (oneLine_of_isValidDeviceIdHex hdev')
      (oneLine_of_isValidGroupId hgr) (oneLine_of_isValidGroupId hgr') (hs.symm.trans hs')
    rfl
  | .seatList body, .seatList body' =>
    have hbod : (Except.ok body : Result SeatListBody) = .ok body' := h.symm.trans h'
    rw [ok.inj hbod]
  | .handover body, .handover body' =>
    have hbod : (Except.ok body : Result HandoverBody) = .ok body' := h.symm.trans h'
    rw [ok.inj hbod]

/-- **A text is signed for one statement only**: equal texts come from the same builder or parser
with equal content. -/
theorem signed_statement_unique {k' : Kind} {st' : Statement k'} (h : st.SignedAs prim s)
    (h' : st'.SignedAs prim s) : (⟨k, st⟩ : Σ k, Statement k) = ⟨k', st'⟩ := by
  obtain rfl := kind_of_signedAs h h'
  rw [statement_of_signedAs h h']

/-- A one-time key whose id imitates the lines around it. -/
def imitatingKey : Statement .oneTimeKey :=
  .oneTimeKey 1 "0123456789abcdef0123456789abcdef" "a\nkey_id:b\nkey:c"
    "AAAAAAAAAAAAAAAAAAAAAAAAAAAAAAAAAAAAAAAAAAA"

def imitatingText : String :=
  "acutest:e2ee:one-time\nprotocol_version:1\ndevice_id:0123456789abcdef0123456789abcdef\n" ++
    "key_id:a\nkey_id:b\nkey:c\nkey:AAAAAAAAAAAAAAAAAAAAAAAAAAAAAAAAAAAAAAAAAAA"

set_option maxRecDepth 10000 in
theorem imitatingKey_signedAs : imitatingKey.SignedAs Sample.primitives imitatingText :=
  ⟨by decide, by decide, by decide, by decide⟩

/-- No other statement is signed as its text. -/
theorem signed_statement_unique_imitating : ¬∃ other : Σ k, Statement k,
    other ≠ ⟨_, imitatingKey⟩ ∧ other.2.SignedAs Sample.primitives imitatingText :=
  fun ⟨_, hother, hsigned⟩ => hother (signed_statement_unique hsigned imitatingKey_signedAs)

end SlogaBackend.E2EE
