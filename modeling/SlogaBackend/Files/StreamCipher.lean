import SlogaBackend.Files.Bytes
import SlogaBackend.Lib.Segments

/-!
# The segmented stream cipher

A stored object is sealed segment by segment. The nonce of a segment is the prefix of its file, its
index and a mark on the last one, so a part of an upload is sealed from its number and its bytes
alone, and any run of whole segments is opened for itself.

The arithmetic is that of the source: a sum or a product that does not fit its type is a panic.
`SegmentedStreamCipher.encryptPart_eq` and `SegmentedStreamCipher.decryptSegments_eq` say what the
two loops return, in the terms of `Segments.Sealer`, and that nothing in them overflows.
-/

namespace SlogaBackend.Files

open Segments

/-- `anyhow::Result`; an overflow is a panic. -/
abbrev Checked (α : Type) := Outcome String α

/-- `ensure!(condition, error)`. -/
def ensure (condition : Prop) [Decidable condition] (error : String) : Checked Unit :=
  if condition then .ok () else .err error

/-- `.context(error)`. -/
def context {α : Type} (value : Option α) (error : String) : Checked α :=
  match value with
  | some a => .ok a
  | none => .err error

/-- A sum or a product of type `u64` or `usize`. -/
def u64 (n : ℕ) : Checked ℕ := if n < 2 ^ 64 then .ok n else .panic

/-- A sum of type `u32`. -/
def u32 (n : ℕ) : Checked ℕ := if n < 2 ^ 32 then .ok n else .panic

/-- A difference of an unsigned type. -/
def minus (a b : ℕ) : Checked ℕ := if b ≤ a then .ok (a - b) else .panic

def asU32 (n : ℕ) : ℕ := n % 2 ^ 32

theorem ensure_true {condition : Prop} [Decidable condition] (h : condition) (error : String) :
    ensure condition error = .ok () := if_pos h

theorem u64_of_lt {n : ℕ} (h : n < 2 ^ 64) : u64 n = .ok n := if_pos h

theorem u32_of_lt {n : ℕ} (h : n < 2 ^ 32) : u32 n = .ok n := if_pos h

theorem minus_of_le {a b : ℕ} (h : b ≤ a) : minus a b = .ok (a - b) := if_pos h

/-! ## The cipher -/

def authenticationTagSizeBytes : ℕ := 16

def streamNoncePrefixSize : ℕ := 7

/-- An AEAD under a fixed key: opening under the same nonce inverts sealing, which adds a tag. -/
structure Aead where
  encrypt : (nonce plaintext : Bytes) → Bytes
  decrypt : (nonce ciphertext : Bytes) → Option Bytes
  length_encrypt : ∀ nonce plaintext,
    (encrypt nonce plaintext).length = plaintext.length + authenticationTagSizeBytes
  decrypt_encrypt : ∀ nonce plaintext, decrypt nonce (encrypt nonce plaintext) = some plaintext

structure SegmentedStreamCipher where
  cipher : Aead
  noncePrefix : Bytes
  segmentSize : ℕ
  segmentsPerPart : ℕ
  length_noncePrefix : noncePrefix.length = streamNoncePrefixSize
  segmentSize_pos : 0 < segmentSize

namespace SegmentedStreamCipher

/-- `with_layout`: the assertion fails on a part size that is no multiple of the segment size. -/
def withLayout (cipher : Aead) (noncePrefix : { bytes : Bytes // bytes.length = streamNoncePrefixSize })
    (segmentSize partSize : ℕ) : Option SegmentedStreamCipher :=
  if h : 0 < segmentSize ∧ partSize % segmentSize = 0 then
    some {
      cipher := cipher
      noncePrefix := noncePrefix.1
      segmentSize := segmentSize
      segmentsPerPart := partSize / segmentSize
      length_noncePrefix := noncePrefix.2
      segmentSize_pos := h.1 }
  else none

theorem layout_eq {cipher : Aead}
    {noncePrefix : { bytes : Bytes // bytes.length = streamNoncePrefixSize }}
    {segmentSize partSize : ℕ} {c : SegmentedStreamCipher}
    (h : withLayout cipher noncePrefix segmentSize partSize = some c) :
    c.segmentSize = segmentSize ∧ c.segmentSize * c.segmentsPerPart = partSize := by
  unfold withLayout at h
  split at h
  · rename_i hsiz
    cases h
    exact ⟨rfl, Nat.mul_div_cancel' (Nat.dvd_of_mod_eq_zero hsiz.2)⟩
  · cases h

variable (c : SegmentedStreamCipher)

/-- The nonce of a segment: the prefix, the index and the mark. -/
def nonce (segmentIndex : ℕ) (isLast : Bool) : Bytes :=
  c.noncePrefix ++ beBytes segmentIndex ++ [if isLast then 1 else 0]

/-- Ciphertext bytes occupied by one full segment. -/
def segmentStride : Checked ℕ := u64 (c.segmentSize + authenticationTagSizeBytes)

/-- Number of segments a plaintext of `len` bytes occupies. -/
def segmentCount (len : ℕ) : ℕ := (len + (c.segmentSize - 1)) / c.segmentSize

/-- Total stored size for a plaintext of `len` bytes. -/
def ciphertextLen (len : ℕ) : Checked ℕ := do
  let tags ← u64 (c.segmentCount len * authenticationTagSizeBytes)
  u64 (len + tags)

/-- The size a segment or a part must have: all of it, unless it is the final one. -/
def ensureSize (what : String) (isFinal : Bool) (size : ℕ) (plaintext : Bytes) : Checked Unit :=
  if isFinal then
    ensure (plaintext ≠ [] ∧ plaintext.length ≤ size)
      s!"final {what} must be 1..={size} bytes, got {plaintext.length}"
  else
    ensure (plaintext.length = size)
      s!"non-final {what} must be exactly {size} bytes, got {plaintext.length}"

/-- Seal one segment at an explicit index. -/
def encryptSegment (segmentIndex : ℕ) (isFinalSegment : Bool) (plaintext : Bytes) :
    Checked Bytes := do
  ensureSize "segment" isFinalSegment c.segmentSize plaintext
  return c.cipher.encrypt (c.nonce segmentIndex isFinalSegment) plaintext

/-- The loop of `encrypt_part` from a segment on. -/
def encryptFrom (firstSegment : ℕ) (isFinalPart : Bool) (count : ℕ) : ℕ → List Bytes → Checked Bytes
  | _, [] => .ok []
  | offset, segment :: rest => do
    let last := isFinalPart && offset == count - 1
    let index ← u32 (asU32 firstSegment + asU32 offset)
    let sealedSegment ← c.encryptSegment index last segment
    let out ← encryptFrom firstSegment isFinalPart count (offset + 1) rest
    return sealedSegment ++ out

def encryptPart (partNumber : ℕ) (isFinalPart : Bool) (plaintext : Bytes) : Checked Bytes := do
  let partSize ← u64 (c.segmentSize * c.segmentsPerPart)
  ensureSize "part" isFinalPart partSize plaintext
  let before ← minus partNumber 1
  let firstSegment ← context
    (if before * c.segmentsPerPart < 2 ^ 64 then some (before * c.segmentsPerPart) else none)
    "part number overflow"
  let lastSegment ← u64 (firstSegment + c.segmentCount plaintext.length)
  ensure (lastSegment ≤ 2 ^ 32) "segment counter overflow"
  let segments := chunks c.segmentSize plaintext
  let tags ← u64 (segments.length * authenticationTagSizeBytes)
  let _ ← u64 (plaintext.length + tags)
  c.encryptFrom firstSegment isFinalPart segments.length 0 segments

/-- The loop of `decrypt_segments` from a block on. -/
def decryptFrom (stride firstSegment : ℕ) (includesFinalSegment : Bool) (count : ℕ) :
    ℕ → List Bytes → Checked Bytes
  | _, [] => .ok []
  | offset, block :: rest => do
    let last := offset == count - 1
    ensure (authenticationTagSizeBytes < block.length) s!"truncated segment at offset {offset}"
    ensure (block.length = stride ∨ (last && includesFinalSegment) = true)
      s!"short segment at offset {offset} not marked final"
    let index ← context
      (if firstSegment + asU32 offset < 2 ^ 32 then some (firstSegment + asU32 offset) else none)
      "segment counter overflow"
    let opened ← context (c.cipher.decrypt (c.nonce index (last && includesFinalSegment)) block)
      "segment decryption failed"
    let out ← decryptFrom stride firstSegment includesFinalSegment count (offset + 1) rest
    return opened ++ out

/-- Decrypt a run of whole segments starting at `firstSegment`. -/
def decryptSegments (firstSegment : ℕ) (includesFinalSegment : Bool) (ciphertext : Bytes) :
    Checked Bytes := do
  ensure (ciphertext ≠ []) "empty ciphertext"
  let stride ← c.segmentStride
  let blocks := chunks stride ciphertext
  c.decryptFrom stride firstSegment includesFinalSegment blocks.length 0 blocks

structure CiphertextRange where
  start : ℕ
  endInclusive : ℕ
  firstSegment : ℕ
  includesFinalSegment : Bool
  skipHead : ℕ

/-- The last ciphertext byte of a range whose last segment is given. -/
def rangeEnd (includesFinal : Bool) (lastSegment stride plaintextLen : ℕ) : Checked ℕ :=
  if includesFinal then do
    let total ← c.ciphertextLen plaintextLen
    minus total 1
  else do
    let next ← u64 ((lastSegment + 1) * stride)
    minus next 1

/-- Map an inclusive plaintext byte range to the segment-aligned ciphertext range that covers
it. -/
def plaintextRangeToCiphertext (start endInclusive plaintextLen : ℕ) : Checked CiphertextRange := do
  ensure (start ≤ endInclusive ∧ endInclusive < plaintextLen)
    s!"range {start}..={endInclusive} out of bounds for {plaintextLen}"
  let stride ← c.segmentStride
  let totalSegments := c.segmentCount plaintextLen
  let firstSegment := start / c.segmentSize
  let lastSegment := endInclusive / c.segmentSize
  let finalSegment ← minus totalSegments 1
  let includesFinal := lastSegment == finalSegment
  let ctStart ← u64 (firstSegment * stride)
  let ctEnd ← c.rangeEnd includesFinal lastSegment stride plaintextLen
  let first ← context (if firstSegment < 2 ^ 32 then some firstSegment else none)
    "segment counter overflow"
  return {
    start := ctStart
    endInclusive := ctEnd
    firstSegment := first
    includesFinalSegment := includesFinal
    skipHead := start - firstSegment * c.segmentSize }

/-! ## The loops -/

/-- Segments sealed under the nonces of this cipher. -/
def sealer : Sealer UInt8 where
  encrypt := fun index last s => c.cipher.encrypt (c.nonce index last) s
  decrypt := fun index last s => c.cipher.decrypt (c.nonce index last) s
  tag := authenticationTagSizeBytes
  length_encrypt := fun _ _ _ => c.cipher.length_encrypt _ _
  decrypt_encrypt := fun _ _ _ => c.cipher.decrypt_encrypt _ _

variable {c}

theorem tiled_sealed (first : ℕ) (last : Bool) {segments : List Bytes}
    (h : Tiled c.segmentSize segments) : Tiled (c.segmentSize + authenticationTagSizeBytes)
      (c.sealer.sealAll first last segments) :=
  c.sealer.tiled_sealAll last h

variable {isFinal last : Bool}

theorem ensureSize_ok {what : String} {size : ℕ} {plaintext : Bytes} (hne : plaintext ≠ [])
    (hle : plaintext.length ≤ size) (hfl : isFinal = false → plaintext.length = size) :
    ensureSize what isFinal size plaintext = .ok () := by
  cases isFinal with
  | false => exact ensure_true (hfl rfl) _
  | true => exact ensure_true (And.intro hne hle) _

theorem encryptSegment_eq {index : ℕ} {s : Bytes} (hne : s ≠ []) (hle : s.length ≤ c.segmentSize)
    (hfl : last = false → s.length = c.segmentSize) :
    c.encryptSegment index last s = .ok (c.sealer.encrypt index last s) := by
  rw [encryptSegment, ensureSize_ok hne hle hfl, ok_bind]
  rfl

section Loops

variable {s : Bytes} {rest : List Bytes} {offset first count : ℕ}

/-- The mark goes on the segment after which nothing comes. -/
theorem mark_eq (hlen : offset + (s :: rest).length = count) :
    (offset == count - 1) = rest.isEmpty := by
  rw [length_cons] at hlen
  rw [Bool.eq_iff_iff, beq_iff_eq, List.isEmpty_iff, ← List.length_eq_zero_iff]
  omega

/-- Only a segment with the mark may be short. -/
theorem length_of_unmarked (htil : Tiled c.segmentSize (s :: rest))
    (hfl : last = false → ∀ s' ∈ s :: rest, s'.length = c.segmentSize)
    (hmr : (last && rest.isEmpty) = false) : s.length = c.segmentSize := by
  rcases Bool.and_eq_false_iff.mp hmr with hls | hmo
  · exact hfl hls s mem_cons_self
  · exact htil.length_eq_of_more hmo

/-- **The loop seals the segments at their indices.** The last one may be short only in the final
part. -/
theorem encryptFrom_eq (hcnt : first + count ≤ 2 ^ 32) :
    ∀ {offset : ℕ} {segments : List Bytes}, Tiled c.segmentSize segments →
      (last = false → ∀ s ∈ segments, s.length = c.segmentSize) →
      offset + segments.length = count → c.encryptFrom first last count offset segments =
        .ok (c.sealer.sealAll (first + offset) last segments).flatten
  | _, [], _, _, _ => rfl
  | offset, s :: rest, htil, hfl, hlen => by
    have hoff := mark_eq hlen
    rw [length_cons] at hlen
    have hind : u32 (asU32 first + asU32 offset) = .ok (first + offset) := by
      unfold asU32
      rw [Nat.mod_eq_of_lt (by omega), Nat.mod_eq_of_lt (by omega), u32_of_lt (by omega)]
    rw [encryptFrom, hind, hoff, ok_bind,
      encryptSegment_eq (htil.ne_nil c.segmentSize_pos) htil.length_le
        (length_of_unmarked htil hfl), ok_bind, encryptFrom_eq hcnt htil.tail
        (fun hls s' hs' => hfl hls s' (mem_cons_of_mem s hs')) (by omega),
      ok_bind, Sealer.sealAll_cons, flatten_cons]
    rfl

end Loops

theorem length_chunks (c : SegmentedStreamCipher) (plaintext : Bytes) :
    (chunks c.segmentSize plaintext).length = c.segmentCount plaintext.length := by
  have hlen := (tiled_chunks c.segmentSize_pos plaintext).length_eq c.segmentSize_pos
  rwa [flatten_chunks c.segmentSize_pos] at hlen

/-- **A part is sealed from the index its number gives**, and nothing overflows while the counter
holds the segments. -/
theorem encryptPart_eq {partNumber : ℕ} {plaintext : Bytes} (hnum : 1 ≤ partNumber)
    (hne : plaintext ≠ [])
    (hfin : isFinal = true → plaintext.length ≤ c.segmentSize * c.segmentsPerPart)
    (hfl : isFinal = false → plaintext.length = c.segmentSize * c.segmentsPerPart)
    (hcnt : (partNumber - 1) * c.segmentsPerPart + c.segmentCount plaintext.length ≤ 2 ^ 32)
    (hpr : c.segmentSize * c.segmentsPerPart < 2 ^ 64)
    (hbts : plaintext.length + c.segmentCount plaintext.length * authenticationTagSizeBytes <
      2 ^ 64) : c.encryptPart partNumber isFinal plaintext =
      .ok (c.sealer.sealAll ((partNumber - 1) * c.segmentsPerPart) isFinal
        (chunks c.segmentSize plaintext)).flatten := by
  have hlp : c.encryptFrom ((partNumber - 1) * c.segmentsPerPart) isFinal
      (chunks c.segmentSize plaintext).length 0 (chunks c.segmentSize plaintext) =
        .ok (c.sealer.sealAll ((partNumber - 1) * c.segmentsPerPart) isFinal
          (chunks c.segmentSize plaintext)).flatten := by
    refine encryptFrom_eq (by rwa [length_chunks]) (tiled_chunks c.segmentSize_pos plaintext) ?_
      (Nat.zero_add _)
    intro hls
    refine (tiled_chunks c.segmentSize_pos plaintext).full c.segmentSize_pos
      (k := c.segmentsPerPart) ?_
    rw [flatten_chunks c.segmentSize_pos, hfl hls, Nat.mul_comm]
  have hle : plaintext.length ≤ c.segmentSize * c.segmentsPerPart := by
    cases isFinal with
    | false => exact (hfl rfl).le
    | true => exact hfin rfl
  unfold encryptPart
  rw [u64_of_lt hpr, ok_bind, ensureSize_ok hne hle hfl, ok_bind,
    minus_of_le hnum, ok_bind, if_pos (by omega), context, ok_bind,
    u64_of_lt (by omega), ok_bind, ensure_true hcnt, ok_bind]
  simp only [length_chunks] at hlp ⊢
  rw [u64_of_lt (by omega), ok_bind, u64_of_lt hbts, ok_bind, hlp]

/-- **The loop opens what was sealed.** A short last segment has to carry the mark. -/
theorem decryptFrom_eq {stride first count : ℕ}
    (hstrid : stride = c.segmentSize + authenticationTagSizeBytes) (hcnt : first + count ≤ 2 ^ 32) :
    ∀ {offset : ℕ} {segments : List Bytes}, Tiled c.segmentSize segments →
      (last = false → ∀ s ∈ segments, s.length = c.segmentSize) →
      offset + segments.length = count → c.decryptFrom stride first last count offset
        (c.sealer.sealAll (first + offset) last segments) = .ok segments.flatten
  | _, [], _, _, _ => rfl
  | offset, s :: rest, htil, hfl, hlen => by
    have hpos := List.length_pos_iff.mpr (htil.ne_nil c.segmentSize_pos)
    have hoff := mark_eq hlen
    rw [length_cons] at hlen
    have hind : (if first + asU32 offset < 2 ^ 32 then some (first + asU32 offset) else none) =
        some (first + offset) := by
      unfold asU32
      rw [Nat.mod_eq_of_lt (by omega), if_pos (by omega)]
    have hbloc := c.sealer.length_encrypt (first + offset) (last && rest.isEmpty) s
    have hln : authenticationTagSizeBytes <
        (c.sealer.encrypt (first + offset) (last && rest.isEmpty) s).length := by
      rw [hbloc]
      exact Nat.lt_add_of_pos_left hpos
    have hshor : (c.sealer.encrypt (first + offset) (last && rest.isEmpty) s).length = stride ∨
        (rest.isEmpty && last) = true := by
      rw [Bool.and_comm rest.isEmpty, hbloc, hstrid]
      cases hmr : last && rest.isEmpty with
      | false => exact .inl (congrArg (· + _) (length_of_unmarked htil hfl hmr))
      | true => exact .inr rfl
    have hop : c.cipher.decrypt (c.nonce (first + offset) (rest.isEmpty && last))
        (c.sealer.encrypt (first + offset) (last && rest.isEmpty) s) = some s := by
      rw [Bool.and_comm]
      exact c.sealer.decrypt_encrypt (first + offset) _ s
    rw [Sealer.sealAll_cons, decryptFrom, hoff, ensure_true hln, ok_bind,
      ensure_true hshor, ok_bind, hind, context, ok_bind, hop, context,
      ok_bind, Nat.add_assoc first offset 1, decryptFrom_eq hstrid hcnt htil.tail
        (fun hls s' hs' => hfl hls s' (mem_cons_of_mem s hs')) (by omega),
      ok_bind, flatten_cons]
    rfl

/-- **A run of sealed segments is opened.** -/
theorem decryptSegments_eq (first : ℕ) (last : Bool) {segments : List Bytes} (hne : segments ≠ [])
    (htil : Tiled c.segmentSize segments)
    (hfl : last = false → ∀ s ∈ segments, s.length = c.segmentSize)
    (hcnt : first + segments.length ≤ 2 ^ 32)
    (hstrid : c.segmentSize + authenticationTagSizeBytes < 2 ^ 64) :
    c.decryptSegments first last (c.sealer.sealAll first last segments).flatten =
      .ok segments.flatten := by
  have hseal := tiled_sealed first last htil
  have hpos : 0 < c.segmentSize + authenticationTagSizeBytes := Nat.add_pos_left c.segmentSize_pos _
  have hcip : (c.sealer.sealAll first last segments).flatten ≠ [] := by
    refine ne_nil_of_length_pos ?_
    rw [c.sealer.length_flatten_sealAll]
    exact Nat.add_pos_right _ (Nat.mul_pos (List.length_pos_iff.mpr hne)
      (show 0 < authenticationTagSizeBytes by decide))
  have hleng := c.sealer.length_sealAll first last segments
  unfold decryptSegments
  rw [ensure_true hcip, ok_bind, segmentStride, u64_of_lt hstrid, ok_bind]
  simp only [chunks_flatten hpos hseal, hleng]
  exact decryptFrom_eq rfl hcnt htil hfl (Nat.zero_add _)

end SegmentedStreamCipher

end SlogaBackend.Files
