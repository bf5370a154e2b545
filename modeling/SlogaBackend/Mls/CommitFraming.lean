import SlogaBackend.Mls.CallRoster
import SlogaBackend.Mls.TextEpochs

/-!
# The framing of a Text commit

The route reads the plaintext prefix of a submitted commit to get at its authenticated data
(`parseCommitAd`). Each read of the prefix succeeds on exactly the bytes of what it returns, so
that the reader accepts its grammar (`framing`) and nothing else.
-/

namespace SlogaBackend.Mls

open Checks

abbrev Bytes := List UInt8

/-! ## The source -/

/-- Why a reader stops: the bytes have come to an end, the commit is refused, or a read is out of
bounds. -/
inductive Stop where
  | ended
  | refused (error : Error)
  | panic

def refused (field : String) : Stop := .refused (failed ("commit framing: " ++ field))

abbrev Read (α : Type) := Except Stop α

/-- `.ok_or_else(|| refused(field))`. -/
def orRefused {α : Type} (field : String) : Read α → Read α
  | .error .ended => .error (refused field)
  | read => read

def hexValue (c : Char) : Nat := if c.isDigit then c.toNat - 48 else c.toNat - 87

/-- The bytes of pairs of hex digits. -/
def decodePairs : List Char → Option Bytes
  | [] => some []
  | [_] => none
  | high :: low :: rest => (UInt8.ofNat (hexValue high * 16 + hexValue low) :: ·) <$> decodePairs rest

def decodeGroupId (groupId : String) : Option Bytes :=
  if isValidGroupId groupId then decodePairs groupId.toList else none

namespace Prefix

/-- `split_at` panics outside the bytes. -/
def take (len : Nat) (rest : Bytes) : Read (Bytes × Bytes) :=
  if rest.length < len then .error .ended
  else if len ≤ rest.length then .ok (rest.splitAt len) else .error .panic

/-- `take(1)?[0]`. -/
def u8 (rest : Bytes) : Read (UInt8 × Bytes) := do
  let (head, rest) ← take 1 rest
  match head[0]? with
  | some byte => return (byte, rest)
  | none => .error .panic

/-- The number big-endian bytes spell. -/
def ofBeBytes (bytes : Bytes) : Nat := bytes.foldl (fun n byte => n * 256 + byte.toNat) 0

/-- A big-endian number; `copy_from_slice` panics on another width. -/
def number (width : Nat) (rest : Bytes) : Read (Nat × Bytes) := do
  let (head, rest) ← take width rest
  if head.length = width then return (ofBeBytes head, rest) else .error .panic

def u16 : Bytes → Read (Nat × Bytes) := number 2

def u64 : Bytes → Read (Nat × Bytes) := number 8

/-- A minimal varint of one byte or two. -/
def varint (rest : Bytes) : Read (Nat × Bytes) := do
  let (first, rest) ← u8 rest
  match first.toNat / 64 with
  | 0 => return (first.toNat % 64, rest)
  | 1 => do
    let (low, rest) ← u8 rest
    if 64 ≤ first.toNat % 64 * 256 + low.toNat then return (first.toNat % 64 * 256 + low.toNat, rest)
    else .error .ended
  | _ => .error .ended

end Prefix

/-- A field that must have the one value. -/
def expect {α : Type} [DecidableEq α] (field : String) (value : α) (read : Read (α × Bytes)) :
    Read Bytes := do
  let (found, rest) ← orRefused field read
  refuseIf (found ≠ value) (refused field)
  return rest

/-- The prefix of a decoded commit. -/
def parsePrefix (group : Bytes) (framedEpoch : Nat) (commit : Bytes) : Read Bytes := do
  let rest ← expect "version" 1 (Prefix.u16 commit)
  let rest ← expect "wire format" 2 (Prefix.u16 rest)
  let rest ← expect "group id length" 32 (Prefix.varint rest)
  let rest ← expect "group id" group (Prefix.take 32 rest)
  let rest ← expect "epoch" framedEpoch (Prefix.u64 rest)
  let rest ← expect "content type" 3 (Prefix.u8 rest)
  let (adLen, rest) ← orRefused "authenticated data length" (Prefix.varint rest)
  refuseIf (maxCommitAdLen < adLen) (refused "authenticated data length")
  let (ad, _) ← orRefused "authenticated data" (Prefix.take adLen rest)
  return ad

def parseCommitAd (prim : Primitives) (commitB64 groupId : String) (epoch : Int) : Read Bytes := do
  refuseIf (¬ (1 ≤ epoch ∧ epoch ≤ maxCanonicalInt)) (refused "epoch")
  let group ← okOr (decodeGroupId groupId) (refused "group id")
  refuseIf (encodedLen maxMlsCommitRawSize < commitB64.utf8ByteSize) (refused "commit size")
  let commit ← okOr (prim.decodeB64 commitB64) (refused "commit encoding")
  parsePrefix group (epoch - 1).toNat commit

/-! ## The grammar -/

/-- A number as big-endian bytes. -/
def beBytes : Nat → Nat → Bytes
  | 0, _ => []
  | width + 1, n => beBytes width (n / 256) ++ [UInt8.ofNat n]

def minimalVarint (n : Nat) : Bytes :=
  if n < 64 then [UInt8.ofNat n] else [UInt8.ofNat (64 + n / 256), UInt8.ofNat n]

def framing (group : Bytes) (epoch : Nat) (ad tail : Bytes) : Bytes :=
  [0, 1] ++ ([0, 2] ++ ([0x20] ++ (group ++ (beBytes 8 (epoch - 1) ++ ([3] ++
    (minimalVarint ad.length ++ (ad ++ tail)))))))

/-! ## What a read accepts -/

variable {α β : Type} {rest rest' bytes : Bytes} {n width : Nat} {field : String} {read : Read α}
  {value : α}

theorem orRefused_eq_ok {a : α} : orRefused field read = .ok a ↔ read = .ok a := by
  unfold orRefused
  split
  · simp
  · rfl

theorem Prefix.take_eq_ok : take n rest = .ok (bytes, rest') ↔
    bytes.length = n ∧ rest = bytes ++ rest' := by
  unfold take
  by_cases h : rest.length < n
  · rw [if_pos h]
    constructor
    · intro h
      cases h
    · rintro ⟨rfl, rfl⟩
      simp at h
  · rw [if_neg h, if_pos (by omega), List.splitAt_eq]
    constructor
    · intro h
      cases h
      exact ⟨List.length_take_of_le (by omega), (List.take_append_drop n rest).symm⟩
    · rintro ⟨rfl, rfl⟩
      simp

theorem Prefix.u8_eq_ok {byte : UInt8} : u8 rest = .ok (byte, rest') ↔ rest = byte :: rest' := by
  cases rest with
  | nil => exact ⟨nofun, nofun⟩
  | cons first rest => simp [u8, take, bind, Except.bind, pure, Except.pure]

theorem beBytes_ofBeBytes (bytes : Bytes) : beBytes bytes.length (Prefix.ofBeBytes bytes) = bytes ∧
      Prefix.ofBeBytes bytes < 256 ^ bytes.length := by
  induction bytes using List.reverseRecOn with
  | nil => exact ⟨rfl, Nat.one_pos⟩
  | append_singleton bytes byte ih =>
    have hby := byte.toNat_lt
    have hof : Prefix.ofBeBytes (bytes ++ [byte]) = Prefix.ofBeBytes bytes * 256 + byte.toNat :=
      List.foldl_append
    rw [hof, length_append, length_singleton, beBytes, pow_succ]
    constructor
    · rw [show (Prefix.ofBeBytes bytes * 256 + byte.toNat) / 256 = Prefix.ofBeBytes bytes by omega,
        ih.1, List.append_cancel_left_eq, List.cons_eq_cons]
      exact ⟨UInt8.toNat_inj.mp (by rw [UInt8.toNat_ofNat']; omega), rfl⟩
    · have := ih.2
      omega

theorem ofBeBytes_beBytes (h : n < 256 ^ width) :
    Prefix.ofBeBytes (beBytes width n) = n ∧ (beBytes width n).length = width := by
  induction width generalizing n with
  | zero => exact ⟨(Nat.lt_one_iff.mp h).symm, rfl⟩
  | succ width ih =>
    obtain ⟨hof, hlen⟩ := ih (Nat.div_lt_of_lt_mul (by rwa [mul_comm, ← pow_succ]))
    have hls : Prefix.ofBeBytes (beBytes width (n / 256) ++ [UInt8.ofNat n]) =
        Prefix.ofBeBytes (beBytes width (n / 256)) * 256 + (UInt8.ofNat n).toNat :=
      List.foldl_append
    rw [beBytes, hls, hof, UInt8.toNat_ofNat', length_append, hlen]
    exact ⟨by omega, rfl⟩

theorem Prefix.number_eq_ok : number width rest = .ok (n, rest') ↔
    n < 256 ^ width ∧ rest = beBytes width n ++ rest' := by
  simp only [number, bind_eq_ok, Prod.exists, take_eq_ok]
  constructor
  · rintro ⟨head, rest, ⟨rfl, rfl⟩, h⟩
    rw [if_pos rfl] at h
    cases h
    have hbts := beBytes_ofBeBytes head
    exact ⟨hbts.2, by rw [hbts.1]⟩
  · rintro ⟨hn, rfl⟩
    obtain ⟨hof, hlen⟩ := ofBeBytes_beBytes hn
    exact ⟨_, _, ⟨hlen, rfl⟩, by rw [if_pos hlen, hof]; rfl⟩

theorem Prefix.varint_eq_ok : varint rest = .ok (n, rest') ↔
    n < 2 ^ 14 ∧ rest = minimalVarint n ++ rest' := by
  simp only [varint, bind_eq_ok, Prod.exists, u8_eq_ok]
  constructor
  · rintro ⟨first, rest, rfl, h⟩
    split at h
    · cases h
      rw [minimalVarint, if_pos (Nat.mod_lt _ (by omega)), Nat.mod_eq_of_lt (by omega),
        UInt8.ofNat_toNat]
      exact ⟨by omega, rfl⟩
    · simp only [bind_eq_ok, Prod.exists, u8_eq_ok] at h
      obtain ⟨low, rest, rfl, h⟩ := h
      have hlow := low.toNat_lt
      split at h
      · cases h
        rw [minimalVarint, if_neg (by omega)]
        refine ⟨by omega, ?_⟩
        congr
        · exact UInt8.toNat_inj.mp (by rw [UInt8.toNat_ofNat']; omega)
        · exact UInt8.toNat_inj.mp (by rw [UInt8.toNat_ofNat']; omega)
      · cases h
    · cases h
  · rintro ⟨hn, rfl⟩
    unfold minimalVarint
    split
    · rename_i hsmal
      refine ⟨_, _, rfl, ?_⟩
      rw [UInt8.toNat_ofNat', show n % 2 ^ 8 = n by omega, show n / 64 = 0 by omega,
        Nat.mod_eq_of_lt hsmal]
      rfl
    · refine ⟨_, _, rfl, ?_⟩
      rw [UInt8.toNat_ofNat', show (64 + n / 256) % 2 ^ 8 / 64 = 1 by omega]
      simp only [bind_eq_ok, Prod.exists, u8_eq_ok]
      refine ⟨_, _, rfl, ?_⟩
      rw [UInt8.toNat_ofNat', show (64 + n / 256) % 2 ^ 8 % 64 * 256 + n % 2 ^ 8 = n by omega,
        if_pos (by omega)]
      rfl

theorem expect_eq_ok [DecidableEq α] {read : Read (α × Bytes)} :
    expect field value read = .ok rest ↔ read = .ok (value, rest) := by
  simp only [expect, bind_eq_ok, orRefused_eq_ok, refuseIf_eq_ok, not_not, pure_eq_ok, Prod.exists]
  constructor
  · rintro ⟨_, _, h, _, rfl, rfl⟩
    exact h
  · intro h
    exact ⟨_, _, h, (), rfl, rfl⟩

theorem parsePrefix_eq_ok {group commit ad : Bytes} {epoch : Nat} (hgr : group.length = 32)
    (hep : epoch - 1 < 256 ^ 8) : parsePrefix group (epoch - 1) commit = .ok ad ↔
      ad.length ≤ maxCommitAdLen ∧ ∃ tail, commit = framing group epoch ad tail := by
  simp only [parsePrefix, bind_eq_ok, expect_eq_ok, orRefused_eq_ok, refuseIf_eq_ok, not_lt,
    Prod.exists, pure_eq_ok, Prefix.u16, Prefix.u64, Prefix.number_eq_ok, Prefix.varint_eq_ok,
    Prefix.take_eq_ok, Prefix.u8_eq_ok]
  constructor
  · rintro ⟨_, ⟨-, rfl⟩, _, ⟨-, rfl⟩, _, ⟨-, rfl⟩, _, ⟨-, rfl⟩, _, ⟨-, rfl⟩, _, rfl, _, _,
      ⟨-, rfl⟩, _, hlen, _, tail, ⟨rfl, rfl⟩, rfl⟩
    exact ⟨hlen, tail, rfl⟩
  · rintro ⟨hlen, tail, rfl⟩
    have hle : ad.length ≤ 16383 := hlen
    exact ⟨_, ⟨by decide, rfl⟩, _, ⟨by decide, rfl⟩, _, ⟨by decide, rfl⟩, _, ⟨hgr, rfl⟩, _,
      ⟨hep, rfl⟩, _, rfl, _, _, ⟨by omega, rfl⟩, (), hlen, _, _, ⟨rfl, rfl⟩, rfl⟩

/-! ## No read is out of bounds -/

/-- A read that does not panic. -/
def Bounded (read : Read α) : Prop := read ≠ .error .panic

theorem Bounded.bind {x : Read α} {f : α → Read β} (hx : Bounded x)
    (hf : ∀ a, x = .ok a → Bounded (f a)) : Bounded (x >>= f) := by
  cases x with
  | error stop =>
    rintro ⟨⟩
    exact hx rfl
  | ok a => exact hf a rfl

theorem bounded_refuseIf {p : Prop} [Decidable p] : Bounded (refuseIf p (refused field)) := by
  unfold refuseIf
  split <;> nofun

theorem bounded_okOr {value : Option α} : Bounded (okOr value (refused field)) := by
  cases value <;> nofun

theorem Bounded.orRefused (h : Bounded read) : Bounded (orRefused field read) := by
  unfold Mls.orRefused
  split
  · nofun
  · exact h

theorem Bounded.expect [DecidableEq α] {read : Read (α × Bytes)} (h : Bounded read)
    : Bounded (expect field value read) :=
  h.orRefused.bind fun _ _ => bounded_refuseIf.bind fun _ _ => nofun

namespace Prefix

theorem bounded_take : Bounded (take n rest) := by
  unfold take
  split
  · nofun
  · rw [if_pos (by omega)]
    nofun

theorem bounded_u8 : Bounded (u8 rest) := by
  refine bounded_take.bind fun ⟨head, rest⟩ h => ?_
  obtain ⟨byte, rfl⟩ := List.length_eq_one_iff.mp (take_eq_ok.mp h).1
  nofun

theorem bounded_number : Bounded (number width rest) := by
  refine bounded_take.bind fun ⟨head, rest⟩ h => ?_
  dsimp only
  rw [if_pos (take_eq_ok.mp h).1]
  nofun

theorem bounded_varint : Bounded (varint rest) := by
  refine bounded_u8.bind fun ⟨first, rest⟩ _ => ?_
  dsimp only
  split
  · nofun
  · refine bounded_u8.bind fun low _ => ?_
    split <;> nofun
  · nofun

end Prefix

theorem bounded_parseCommitAd (prim : Primitives) (commitB64 groupId : String) (epoch : Int) :
    Bounded (parseCommitAd prim commitB64 groupId epoch) := by
  refine bounded_refuseIf.bind fun _ _ => bounded_okOr.bind fun group _ =>
    bounded_refuseIf.bind fun _ _ => bounded_okOr.bind fun commit _ => ?_
  refine Prefix.bounded_number.expect.bind fun _ _ => Prefix.bounded_number.expect.bind fun _ _ =>
    Prefix.bounded_varint.expect.bind fun _ _ => Prefix.bounded_take.expect.bind fun _ _ =>
    Prefix.bounded_number.expect.bind fun _ _ => Prefix.bounded_u8.expect.bind fun _ _ => ?_
  exact Prefix.bounded_varint.orRefused.bind fun _ _ => bounded_refuseIf.bind fun _ _ =>
    Prefix.bounded_take.orRefused.bind fun _ _ => nofun

/-! ## The parser -/

variable {cs : List Char}

theorem hexValue_spec {c : Char} (h : isLowerHexChar c = true) :
    hexValue c < 16 ∧ Nat.digitChar (hexValue c) = c := by
  have hall : ∀ n < 103, 48 ≤ n ∧ n ≤ 57 ∨ 97 ≤ n → hexValue (Char.ofNat n) < 16 ∧
      Nat.digitChar (hexValue (Char.ofNat n)) = Char.ofNat n := by decide
  simp only [isLowerHexChar, or_eq_true, and_eq_true, decide_eq_true_eq] at h
  rw [← Char.ofNat_toNat c]
  refine hall c.toNat ?_ ?_
  · rcases h with ⟨-, hc⟩ | ⟨-, hc⟩
    · exact lt_of_le_of_lt (show c.toNat ≤ 57 from hc) (by decide)
    · exact Nat.lt_succ_of_le hc
  · exact h.imp (fun hc => ⟨hc.1, hc.2⟩) fun hc => hc.1

/-- The bytes that pairs of hex digits are read as are spelled with these digits. -/
theorem exists_decodePairs {n : Nat} (h : cs.length = 2 * n) (hhex : cs.all isLowerHexChar = true) :
    ∃ raw, decodePairs cs = some raw ∧ raw.length = n ∧ toHex raw = String.ofList cs := by
  induction n generalizing cs with
  | zero =>
    obtain rfl := List.length_eq_zero_iff.mp h
    exact ⟨[], rfl, rfl, rfl⟩
  | succ n ih =>
    match cs, h, hhex with
    | high :: low :: rest, h, hhex =>
      simp only [List.all_cons, and_eq_true] at hhex
      have hrest : rest.length = 2 * n := by
        rw [length_cons, length_cons] at h
        omega
      obtain ⟨raw, hraw, hlen, htext⟩ := ih hrest hhex.2.2
      obtain ⟨hhigh, hhigh'⟩ := hexValue_spec hhex.1
      obtain ⟨hlow, hlow'⟩ := hexValue_spec hhex.2.1
      refine ⟨_, by rw [decodePairs, hraw]; rfl, congrArg (· + 1) hlen, ?_⟩
      have hbyte : (UInt8.ofNat (hexValue high * 16 + hexValue low)).toNat =
          hexValue high * 16 + hexValue low := UInt8.toNat_ofNat_of_lt' (show _ < 256 by omega)
      refine String.toList_inj.mp ?_
      have hrest := congrArg String.toList htext
      rw [toHex, String.toList_ofList, String.toList_ofList] at hrest ⊢
      rw [List.flatMap_cons, hrest]
      show hexDigit _ :: hexDigit _ :: rest = high :: low :: rest
      rw [hexDigit, hexDigit, UInt8.toNat_div, UInt8.toNat_mod, hbyte]
      rw [show (16 : UInt8).toNat = 16 from rfl, Nat.mul_add_mod_of_lt hlow,
        show (hexValue high * 16 + hexValue low) / 16 = hexValue high by omega, hhigh', hlow']

theorem utf8ByteSize_of_hex (h : cs.all isLowerHexChar = true) :
    (String.ofList cs).utf8ByteSize = cs.length := by
  rw [String.utf8ByteSize_ofList]
  induction cs with
  | nil => rfl
  | cons c cs ih =>
    obtain ⟨hc, hcs⟩ := Bool.and_eq_true_iff.mp (List.all_cons ▸ h)
    rw [String.utf8Len_cons, ih hcs, Char.utf8Size_eq_one_iff.mpr ?_, length_cons]
    simp only [isLowerHexChar, or_eq_true, and_eq_true, decide_eq_true_eq] at hc
    rcases hc with ⟨-, hc⟩ | ⟨-, hc⟩
    · exact UInt32.le_trans hc (by decide)
    · exact UInt32.le_trans hc (by decide)

theorem decodeGroupId_eq_some {groupId : String} (h : isValidGroupId groupId = true) :
    ∃ raw, decodeGroupId groupId = some raw ∧ raw.length = 32 ∧ toHex raw = groupId := by
  rw [decodeGroupId, if_pos h]
  rw [isValidGroupId, and_eq_true, beq_iff_eq] at h
  have hsize := utf8ByteSize_of_hex h.2
  rw [String.ofList_toList, h.1] at hsize
  obtain ⟨raw, hraw, hlength, htext⟩ := exists_decodePairs (n := 32) hsize.symm h.2
  exact ⟨raw, hraw, hlength, htext.trans String.ofList_toList⟩

/-- **The parser accepts exactly its grammar**, and no read of it is out of bounds. -/
theorem parse_commit_ad_grammar (prim : Primitives) (commitB64 groupId : String) (epoch : Int) :
    parseCommitAd prim commitB64 groupId epoch ≠ .error .panic ∧
    (∀ commit, prim.decodeB64 commitB64 = some commit →
      commitB64.utf8ByteSize ≤ encodedLen maxMlsCommitRawSize → isValidGroupId groupId = true →
      1 ≤ epoch → epoch ≤ maxCanonicalInt →
      ∃ raw, decodeGroupId groupId = some raw ∧ toHex raw = groupId ∧
        (∀ ad, parseCommitAd prim commitB64 groupId epoch = .ok ad ↔
          ad.length ≤ maxCommitAdLen ∧ ∃ tail, commit = framing raw epoch.toNat ad tail) ∧
        ∀ ad ad' tail tail', ad.length ≤ maxCommitAdLen → ad'.length ≤ maxCommitAdLen →
          commit = framing raw epoch.toNat ad tail → commit = framing raw epoch.toNat ad' tail' →
          ad = ad') := by
  refine ⟨bounded_parseCommitAd prim commitB64 groupId epoch, ?_⟩
  intro commit hcommit hsize hgroup hlow hhigh
  obtain ⟨raw, hraw, hlength, htext⟩ := decodeGroupId_eq_some hgroup
  have hiff : ∀ ad, parseCommitAd prim commitB64 groupId epoch = .ok ad ↔
      ad.length ≤ maxCommitAdLen ∧ ∃ tail, commit = framing raw epoch.toNat ad tail := by
    intro ad
    have hnat : (epoch - 1).toNat = epoch.toNat - 1 := by omega
    rw [← parsePrefix_eq_ok hlength (by unfold maxCanonicalInt at hhigh; omega), ← hnat]
    simp only [parseCommitAd, bind_eq_ok, refuseIf_eq_ok, not_not, okOr_eq_ok, hraw, hcommit]
    constructor
    · rintro ⟨_, -, _, ⟨⟩, _, -, _, ⟨⟩, h⟩
      exact h
    · intro h
      exact ⟨(), ⟨hlow, hhigh⟩, raw, rfl, (), by omega, commit, rfl, h⟩
  refine ⟨raw, hraw, htext, hiff, fun ad ad' tail tail' hle hle' h h' => ?_⟩
  have hok := (hiff ad).mpr ⟨hle, tail, h⟩
  rw [(hiff ad').mpr ⟨hle', tail', h'⟩] at hok
  cases hok
  rfl

/-- A commit of the first epoch with two bytes of authenticated data, and more behind them. -/
def Sample.framed : Bytes := framing (List.replicate 32 0xaa) 1 [5, 6] [7]

theorem parse_commit_ad_grammar_two : parseCommitAd ⟨fun _ => some Sample.framed, id⟩
    "AAEAAiCqqqqqqqqqqqqqqqqqqqqqqqqqqqqqqqqqqqqqqqqqqgAAAAAAAAAAAwIFBgc"
    (String.ofList (List.replicate 64 'a')) 1 = .ok [5, 6] := by
  obtain ⟨raw, hraw, -, hiff, -⟩ := (parse_commit_ad_grammar ⟨fun _ => some Sample.framed, id⟩
    "AAEAAiCqqqqqqqqqqqqqqqqqqqqqqqqqqqqqqqqqqqqqqqqqqgAAAAAAAAAAAwIFBgc"
    (String.ofList (List.replicate 64 'a')) 1).2 _ rfl (by decide) (by decide) (by decide)
    (by decide)
  cases hraw
  exact (hiff _).mpr ⟨by decide, [7], rfl⟩

end SlogaBackend.Mls
