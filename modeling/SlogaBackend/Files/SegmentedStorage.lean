import SlogaBackend.Files.Streaming
import SlogaBackend.Files.UploadSessions

/-!
# Segmented storage

The way of a file through chunked storage and back: it is cut into the parts the session asks for,
the parts are sealed in any order, the store joins them in the order of their numbers, and a range
of the file is read from the whole segments that cover it.

A position is counted in three ways, in the file, in segments and in the stored object, and the
last segment is short and marked. `segmented_round_trip` is the result for every layout: the stored object is
the sequential STREAM encryption of the file, and both ways of reading a range return it.
-/

namespace SlogaBackend.Files

open Segments SegmentedStreamCipher

/-- `bytes[start..=endInclusive]`. -/
def between (bytes : Bytes) (start endInclusive : ℕ) : Bytes :=
  (bytes.drop start).take (endInclusive - start + 1)

theorem length_between {bytes : Bytes} {start endInclusive : ℕ} (hle : start ≤ endInclusive)
    (hlt : endInclusive < bytes.length) :
    (between bytes start endInclusive).length = endInclusive - start + 1 := by
  rw [between, List.length_take, length_drop]
  omega

/-! ## Cutting and sealing -/

namespace UploadSession

variable (session : UploadSession)

/-- Cut a file from a part number on, each part as long as the session expects. A part number is an
`i32`. -/
def cutFrom : ℕ → ℕ → Bytes → Checked (List Bytes)
  | 0, _, _ => .ok []
  | count + 1, number, rest => do
    ensure ((number : Int) ≤ maxPartNumber) "part number out of range"
    let expected ← session.expectedPartSize number
    let size ← context expected "no such part"
    let parts ← cutFrom count (number + 1) (rest.drop size.toNat)
    return rest.take size.toNat :: parts

/-- Cut a file into the parts of a session. -/
def cut (plaintext : Bytes) : Checked (List Bytes) := do
  let totalParts ← session.totalParts
  session.cutFrom totalParts.toNat 1 plaintext

variable {session}

/-- **The session cuts a file into pieces of the part size.** -/
theorem cutFrom_eq {total partSize parts : ℕ} (h : session.Sized total partSize)
    (htot : session.totalParts = .ok (parts : Int)) (hpar : (parts : Int) ≤ maxPartNumber) :
    ∀ (number : ℕ) {ps : List Bytes}, Tiled partSize ps → 1 ≤ number →
      number - 1 + ps.length = parts → total = (number - 1) * partSize + ps.flatten.length →
      session.cutFrom ps.length number ps.flatten = .ok ps := by
  intro number ps htl
  induction htl generalizing number with
  | nil => exact fun _ _ _ => rfl
  | last hne hle =>
    intro hnum hcnt hlen
    rw [length_singleton] at hcnt
    obtain rfl : parts = number := by omega
    rw [flatten_cons, flatten_nil, append_nil] at hlen ⊢
    rw [length_singleton, cutFrom, ensure_true hpar, ok_bind,
      expectedPartSize_last h htot hnum hlen, ok_bind, context, ok_bind,
      cutFrom, ok_bind, Int.toNat_natCast, List.take_length]
    rfl
  | cons hp hne htl ih =>
    intro hnum hcnt hlen
    have hpos := length_pos_iff.mpr hne
    rw [length_cons] at hcnt
    rw [flatten_cons, length_append, hp] at hlen
    have hnx : number * partSize = (number - 1) * partSize + partSize := by
      rw [← Nat.succ_mul]
      congr 1
      omega
    rw [length_cons, cutFrom, ensure_true (by omega), ok_bind,
      expectedPartSize_full h htot hnum (by omega), ok_bind, context, ok_bind,
      Int.toNat_natCast, flatten_cons, drop_left' hp, List.take_left' hp,
      ih (number + 1) (by omega) (by omega) (by
        rw [Nat.add_sub_cancel, hnx]
        omega), ok_bind]
    rfl

theorem cut_eq {partSize : ℕ} {plaintext : Bytes} (hpr : 0 < partSize)
    (h : session.Sized plaintext.length partSize)
    (hpar : (((plaintext.length + (partSize - 1)) / partSize : ℕ) : Int) ≤ maxPartNumber) :
    session.cut plaintext = .ok (chunks partSize plaintext) := by
  have hlen := (tiled_chunks hpr plaintext).length_eq hpr
  rw [flatten_chunks hpr] at hlen
  have htot := totalParts_eq h hpr
  rw [← hlen] at htot hpar
  have hcut := cutFrom_eq h htot hpar 1 (tiled_chunks hpr plaintext) le_rfl
    (Nat.zero_add _) (by rw [flatten_chunks hpr, Nat.sub_self, Nat.zero_mul, Nat.zero_add])
  rw [flatten_chunks hpr] at hcut
  rw [cut, htot, ok_bind, Int.toNat_natCast, hcut]

end UploadSession

/-- Seal the parts of a file, in the order of the list of their numbers. -/
def encryptParts (c : SegmentedStreamCipher) (parts : List Bytes) :
    List ℕ → Checked (List (ℕ × Bytes))
  | [] => .ok []
  | number :: order => do
    let part ← context parts[number - 1]? "no such part"
    let ciphertext ← c.encryptPart (asU32 number) (number == parts.length) part
    let stored ← encryptParts c parts order
    return (number, ciphertext) :: stored

/-- What the store makes of the parts: they are joined in the order of their numbers. -/
def assemble (stored : List (ℕ × Bytes)) : Bytes :=
  ((stored.mergeSort fun a b => a.1 ≤ b.1).map Prod.snd).flatten

/-- Sequential encryption by `aead::stream::EncryptorBE32` from a position on: every segment but the
last with `encrypt_next`, which fails where the counter ends, and the last with `encrypt_last`. -/
def encryptorBE32 (c : SegmentedStreamCipher) : ℕ → List Bytes → Checked Bytes
  | _, [] => .ok []
  | position, [segment] => .ok (c.cipher.encrypt (c.noncePrefix ++ beBytes position ++ [1]) segment)
  | position, segment :: rest => do
    ensure (position ≠ 2 ^ 32 - 1) "aead::Error"
    let out ← encryptorBE32 c (position + 1) rest
    return c.cipher.encrypt (c.noncePrefix ++ beBytes position ++ [0]) segment ++ out

/-- **The sequential encryption** seals the segments one after another. -/
theorem encryptorBE32_eq {c : SegmentedStreamCipher} : ∀ (position : ℕ) (segments : List Bytes),
    position + segments.length ≤ 2 ^ 32 → encryptorBE32 c position segments =
      .ok (c.sealer.sealAll position true segments).flatten
  | _, [], _ => rfl
  | position, [s], _ => by
    rw [encryptorBE32, Sealer.sealAll_singleton, flatten_cons, flatten_nil,
      append_nil]
    rfl
  | position, s :: t :: rest, h => by
    rw [length_cons] at h
    rw [encryptorBE32, ensure_true (by
        rw [length_cons] at h
        omega), ok_bind,
      encryptorBE32_eq (position + 1) (t :: rest) (by omega),
      ok_bind, Sealer.sealAll_cons _ position, flatten_cons]
    · rfl
    · nofun

/-! ## The parts together -/

section Parts

variable {c : SegmentedStreamCipher}

def sealedPart (c : SegmentedStreamCipher) (total index : ℕ) (part : Bytes) : Bytes :=
  (c.sealer.sealAll (index * c.segmentsPerPart) (index + 1 == total)
    (chunks c.segmentSize part)).flatten

/-- **The parts joined are the whole file sealed.** -/
theorem flatten_sealedParts (hspp : 0 < c.segmentsPerPart) {total : ℕ} :
    ∀ (index : ℕ) {ps : List Bytes}, Tiled (c.segmentSize * c.segmentsPerPart) ps → ps ≠ [] →
      index + ps.length = total →
      (ps.mapIdx fun k p => sealedPart c total (index + k) p).flatten =
        (c.sealer.sealAll (index * c.segmentsPerPart) true
          (chunks c.segmentSize ps.flatten)).flatten
  | _, _, .nil, hne, _ => absurd rfl hne
  | index, [p], .last hne hle, _, hlen => by
    rw [length_singleton] at hlen
    have hmr : (index + 1 == total) = true := by rw [hlen, beq_self_eq_true]
    rw [List.mapIdx_singleton, flatten_cons, flatten_nil, append_nil,
      flatten_cons, flatten_nil, append_nil, sealedPart, Nat.add_zero, hmr]
  | index, p :: ps, .cons hp hne htl, _, hlen => by
    have hpos := length_pos_iff.mpr hne
    have hseg := c.segmentSize_pos
    rw [length_cons] at hlen
    have hmr : (index + 0 + 1 == total) = false := by
      rw [beq_eq_false_iff_ne]
      omega
    have hrs : ps.flatten ≠ [] := by
      refine ne_nil_of_length_pos ?_
      have hlow := (htl.length_flatten (Nat.mul_pos hseg hspp) hne).1
      omega
    have hfl : p.length = c.segmentsPerPart * c.segmentSize := by rw [hp, Nat.mul_comm]
    have hcnt : (chunks c.segmentSize p).length = c.segmentsPerPart := by
      rw [length_chunks, segmentCount, hfl]
      refine Nat.div_eq_of_lt_le (by omega) ?_
      rw [Nat.succ_mul]
      omega
    have hshif : (ps.mapIdx fun k q => sealedPart c total (index + (k + 1)) q) =
        ps.mapIdx fun k q => sealedPart c total (index + 1 + k) q := by
      refine List.mapIdx_eq_mapIdx_iff.mpr fun k hk => ?_
      rw [Nat.add_right_comm, Nat.add_assoc]
    rw [List.mapIdx_cons, flatten_cons, hshif,
      flatten_sealedParts hspp (index + 1) htl hne (by omega), sealedPart, hmr, Nat.add_zero,
      flatten_cons, chunks_append hseg hfl hrs,
      Sealer.sealAll_append _ _ _ _ _ (chunks_ne_nil hseg hrs), List.flatten_append, hcnt,
      Nat.succ_mul]

/-- What holds of the parts of one file. -/
structure PartsFit (c : SegmentedStreamCipher) (parts : List Bytes) : Prop where
  tiled : Tiled (c.segmentSize * c.segmentsPerPart) parts
  segmentsPerPart_pos : 0 < c.segmentsPerPart
  numbers : (parts.length : Int) ≤ maxPartNumber
  counter : c.segmentCount parts.flatten.length ≤ 2 ^ 32
  bytes : parts.flatten.length + c.segmentSize * c.segmentsPerPart ≤ 2 ^ 63

theorem segmentCount_mul_add (k len : ℕ) :
    c.segmentCount (k * (c.segmentSize * c.segmentsPerPart) + len) =
      k * c.segmentsPerPart + c.segmentCount len := by
  unfold segmentCount
  have hmul : k * (c.segmentSize * c.segmentsPerPart) = c.segmentSize * (k * c.segmentsPerPart) := by
    rw [Nat.mul_left_comm]
  rw [hmul, Nat.add_assoc, Nat.mul_add_div c.segmentSize_pos]

theorem segmentCount_mono {m n : ℕ} (h : m ≤ n) : c.segmentCount m ≤ c.segmentCount n :=
  Nat.div_le_div_right (by omega)

def sealedNumber (c : SegmentedStreamCipher) (parts : List Bytes) (number : ℕ) : Bytes :=
  sealedPart c parts.length (number - 1) (parts[number - 1]?.getD [])

variable {parts : List Bytes}

/-- **A part is sealed from its number and its bytes alone.** -/
theorem encryptPart_of_fit (h : PartsFit c parts) {number : ℕ} (hnum : 1 ≤ number)
    (hle : number ≤ parts.length) : ∃ part, parts[number - 1]? = some part ∧
      c.encryptPart (asU32 number) (number == parts.length) part =
        .ok (sealedNumber c parts number) := by
  have hi : number - 1 < parts.length := by omega
  have hlim : maxPartNumber = 2147483647 := rfl
  have hnumb := h.numbers
  have hbts := h.bytes
  obtain ⟨hne, hshor, hfl, hend⟩ :=
    h.tiled.getElem (Nat.mul_pos c.segmentSize_pos h.segmentsPerPart_pos) hi
  have hcnt : (number - 1) * c.segmentsPerPart + c.segmentCount (parts[number - 1]).length ≤
      2 ^ 32 := by
    rw [← segmentCount_mul_add]
    exact (segmentCount_mono hend).trans h.counter
  have hu32 : asU32 number = number := Nat.mod_eq_of_lt (by omega)
  have hmr : (number == parts.length) = (number - 1 + 1 == parts.length) := by
    rw [Nat.sub_add_cancel hnum]
  refine ⟨parts[number - 1], List.getElem?_eq_getElem hi, ?_⟩
  rw [hu32, encryptPart_eq hnum hne (fun _ => hshor) (fun hfin => hfl (by
      rw [beq_eq_false_iff_ne] at hfin
      omega)) hcnt (by omega) (by
      rw [show authenticationTagSizeBytes = 16 from rfl]
      omega), sealedNumber, sealedPart, hmr, List.getElem?_eq_getElem hi, getD_some]

theorem encryptParts_eq (h : PartsFit c parts) : ∀ {order : List ℕ},
    (∀ number ∈ order, 1 ≤ number ∧ number ≤ parts.length) → encryptParts c parts order =
      .ok (order.map fun number => (number, sealedNumber c parts number))
  | [], _ => rfl
  | number :: order, hord => by
    obtain ⟨hnum, hle⟩ := hord number mem_cons_self
    obtain ⟨part, hpr, hseal⟩ := encryptPart_of_fit h hnum hle
    rw [encryptParts, hpr, context, ok_bind, hseal, ok_bind,
      encryptParts_eq h fun other hoth => hord other (mem_cons_of_mem number hoth),
      ok_bind]
    rfl

variable {order : List ℕ}

theorem assemble_map {n : ℕ} (f : ℕ → Bytes) (hord : order.Perm (List.range' 1 n)) :
    assemble (order.map fun number => (number, f number)) = ((List.range' 1 n).map f).flatten := by
  have hpm : ((order.map fun number => (number, f number)).mergeSort fun a b => a.1 ≤ b.1).Perm
      ((List.range' 1 n).map fun number => (number, f number)) :=
    (List.mergeSort_perm _ _).trans (hord.map _)
  have hsto : ((order.map fun number => (number, f number)).mergeSort
      fun a b => a.1 ≤ b.1).Pairwise fun a b => a.1 ≤ b.1 := by
    refine (List.pairwise_mergeSort ?_ ?_ _).imp of_decide_eq_true
    · intro a b d hab hbd
      exact decide_eq_true ((of_decide_eq_true hab).trans (of_decide_eq_true hbd))
    · intro a b
      rw [or_eq_true, decide_eq_true_iff, decide_eq_true_iff]
      exact Nat.le_total _ _
  have hran : ((List.range' 1 n).map fun number => (number, f number)).Pairwise
      fun a b => a.1 ≤ b.1 := by
    rw [pairwise_map]
    exact (List.pairwise_lt_range' (s := 1) (n := n)).imp fun hlt => Nat.le_of_lt hlt
  have hsor : ((order.map fun number => (number, f number)).mergeSort fun a b => a.1 ≤ b.1) =
      (List.range' 1 n).map fun number => (number, f number) := by
    refine List.Perm.eq_of_pairwise (fun a b ha hb hab hba => ?_) hsto hran hpm
    rw [List.mem_mergeSort] at ha
    obtain ⟨m, -, rfl⟩ := mem_map.mp ha
    obtain ⟨k, -, rfl⟩ := mem_map.mp hb
    obtain rfl : m = k := Nat.le_antisymm hab hba
    rfl
  rw [assemble, hsor, map_map]
  rfl

theorem map_sealedNumber (parts : List Bytes) :
    (List.range' 1 parts.length).map (sealedNumber c parts) =
      parts.mapIdx fun k p => sealedPart c parts.length (0 + k) p := by
  refine List.ext_getElem (by simp) fun k hk hk' => ?_
  rw [List.length_mapIdx] at hk'
  simp only [List.getElem_map, List.getElem_range', List.getElem_mapIdx, sealedNumber]
  rw [Nat.one_mul, Nat.add_sub_cancel_left, List.getElem?_eq_getElem hk', getD_some,
    Nat.zero_add]

/-- **The stored object** is the file sealed segment by segment, whichever part was first. -/
theorem stored_eq (h : PartsFit c parts) (hne : parts ≠ [])
    (hord : order.Perm (List.range' 1 parts.length)) :
    ∃ stored, encryptParts c parts order = .ok stored ∧ assemble stored =
      (c.sealer.sealAll 0 true (chunks c.segmentSize parts.flatten)).flatten := by
  refine ⟨_, encryptParts_eq h fun number hmem => ?_, ?_⟩
  · have hran := List.mem_range'_1.mp (hord.mem_iff.mp hmem)
    omega
  · rw [assemble_map _ hord, map_sealedNumber,
      flatten_sealedParts h.segmentsPerPart_pos 0 h.tiled hne (Nat.zero_add _), Nat.zero_mul]

end Parts

/-! ## Ranges -/

section Ranges

variable {c : SegmentedStreamCipher} {plaintext : Bytes} {start endInclusive : ℕ}

def storedForm (c : SegmentedStreamCipher) (plaintext : Bytes) : Bytes :=
  (c.sealer.sealAll 0 true (chunks c.segmentSize plaintext)).flatten

/-- The segments a range touches. -/
def covering (c : SegmentedStreamCipher) (plaintext : Bytes) (start endInclusive : ℕ) :
    List Bytes :=
  ((chunks c.segmentSize plaintext).drop (start / c.segmentSize)).take
    (endInclusive / c.segmentSize - start / c.segmentSize + 1)

/-- A range of a file whose sizes fit. -/
structure RangeFits (c : SegmentedStreamCipher) (plaintext : Bytes) (start endInclusive : ℕ) :
    Prop where
  start_le : start ≤ endInclusive
  end_lt : endInclusive < plaintext.length
  counter : c.segmentCount plaintext.length ≤ 2 ^ 32
  bytes : plaintext.length ≤ 2 ^ 63
  segment : c.segmentSize ≤ 2 ^ 63

theorem length_storedForm (c : SegmentedStreamCipher) (plaintext : Bytes) :
    (storedForm c plaintext).length =
      plaintext.length + c.segmentCount plaintext.length * authenticationTagSizeBytes := by
  rw [storedForm, Sealer.length_flatten_sealAll, flatten_chunks c.segmentSize_pos, length_chunks]
  rfl

theorem lastSegment_inside (c : SegmentedStreamCipher) (hne : plaintext ≠ []) :
    ((chunks c.segmentSize plaintext).length - 1) *
      (c.segmentSize + authenticationTagSizeBytes) < (storedForm c plaintext).length := by
  have hlow := ((tiled_sealed 0 true (tiled_chunks c.segmentSize_pos plaintext)).length_flatten
    (Nat.add_pos_left c.segmentSize_pos _) (ne_nil_of_length_pos (by
      rw [Sealer.length_sealAll]
      exact length_pos_iff.mpr (chunks_ne_nil c.segmentSize_pos hne)))).1
  rwa [Sealer.length_sealAll] at hlow

theorem ciphertextLen_eq (hcoun : c.segmentCount plaintext.length ≤ 2 ^ 32)
    (hbts : plaintext.length ≤ 2 ^ 63) :
    c.ciphertextLen plaintext.length = .ok (storedForm c plaintext).length := by
  have htag : authenticationTagSizeBytes = 16 := rfl
  rw [length_storedForm, ciphertextLen, htag, u64_of_lt (by omega), ok_bind,
    u64_of_lt (by omega)]

theorem run_mul {first last : ℕ} (hle : first ≤ last) (size : ℕ) :
    (last - first + 1) * size + first * size = (last + 1) * size := by
  rw [← Nat.add_mul]
  congr 1
  omega

theorem run_end {first last size : ℕ} (hle : first ≤ last) (hsz : 0 < size) :
    (last + 1) * size - 1 - first * size + 1 = (last - first + 1) * size := by
  have hmul := run_mul hle size
  have hpos : 0 < (last - first + 1) * size := Nat.mul_pos (Nat.succ_pos _) hsz
  omega

theorem RangeFits.segments (h : RangeFits c plaintext start endInclusive) :
    start / c.segmentSize ≤ endInclusive / c.segmentSize ∧
      endInclusive / c.segmentSize < (chunks c.segmentSize plaintext).length := by
  have hne : plaintext ≠ [] := ne_nil_of_length_pos (Nat.zero_lt_of_lt h.end_lt)
  obtain ⟨-, hhg⟩ := (tiled_chunks c.segmentSize_pos plaintext).length_flatten c.segmentSize_pos
    (chunks_ne_nil c.segmentSize_pos hne)
  rw [flatten_chunks c.segmentSize_pos] at hhg
  refine ⟨Nat.div_le_div_right h.start_le, ?_⟩
  rw [Nat.div_lt_iff_lt_mul c.segmentSize_pos]
  exact h.end_lt.trans_le hhg

theorem tiled_covering (c : SegmentedStreamCipher) (plaintext : Bytes) (start endInclusive : ℕ) :
    Tiled c.segmentSize (covering c plaintext start endInclusive) :=
  ((tiled_chunks c.segmentSize_pos plaintext).drop _).take c.segmentSize_pos _

section

variable (h : RangeFits c plaintext start endInclusive)
include h

theorem length_covering : (covering c plaintext start endInclusive).length =
      endInclusive / c.segmentSize - start / c.segmentSize + 1 := by
  obtain ⟨hle, hlt⟩ := h.segments
  rw [covering, List.length_take, length_drop]
  omega

theorem full_covering
    (hls : endInclusive / c.segmentSize + 1 < (chunks c.segmentSize plaintext).length) :
    ∀ s ∈ covering c plaintext start endInclusive, s.length = c.segmentSize := by
  intro s hs
  obtain ⟨hle, -⟩ := h.segments
  obtain ⟨i, hi, rfl⟩ := List.mem_iff_getElem.mp hs
  rw [length_covering h] at hi
  have hind : start / c.segmentSize + i + 1 < (chunks c.segmentSize plaintext).length := by omega
  simp only [covering, List.getElem_take, List.getElem_drop]
  exact ((tiled_chunks c.segmentSize_pos plaintext).getElem c.segmentSize_pos
    (Nat.lt_of_succ_lt hind)).2.2.1 hind

/-- **The window of the covering segments is the range.** -/
theorem window_covering :
    Streaming.window (start - start / c.segmentSize * c.segmentSize) (endInclusive - start + 1)
      (covering c plaintext start endInclusive).flatten = between plaintext start endInclusive := by
  have htil := tiled_chunks c.segmentSize_pos plaintext
  have hstar : start / c.segmentSize * c.segmentSize ≤ start := Nat.div_mul_le_self _ _
  have hend : endInclusive < (endInclusive / c.segmentSize + 1) * c.segmentSize :=
    Nat.lt_mul_of_div_lt (Nat.lt_succ_self _) c.segmentSize_pos
  have hrun := run_mul h.segments.1 c.segmentSize
  have hstart_le := h.start_le
  rw [covering, ← (htil.drop _).take_flatten, ← htil.drop_flatten,
    flatten_chunks c.segmentSize_pos, Streaming.window, between, List.drop_take, List.take_take,
    drop_drop, Nat.add_sub_cancel' hstar, Nat.min_eq_left (by omega)]

/-- Where the covering segments end in the stored object. -/
def storedEnd (c : SegmentedStreamCipher) (plaintext : Bytes) (endInclusive : ℕ) : ℕ :=
  if endInclusive / c.segmentSize = (chunks c.segmentSize plaintext).length - 1 then
    (storedForm c plaintext).length - 1
  else (endInclusive / c.segmentSize + 1) * (c.segmentSize + authenticationTagSizeBytes) - 1

/-- **The stored bytes of a range are the covering segments, sealed.** -/
theorem between_stored : between (storedForm c plaintext)
        (start / c.segmentSize * (c.segmentSize + authenticationTagSizeBytes))
        (storedEnd c plaintext endInclusive) = (c.sealer.sealAll (start / c.segmentSize)
        (endInclusive / c.segmentSize == (chunks c.segmentSize plaintext).length - 1)
        (covering c plaintext start endInclusive)).flatten := by
  obtain ⟨hle, hlt⟩ := h.segments
  have hdr : (storedForm c plaintext).drop
      (start / c.segmentSize * (c.segmentSize + authenticationTagSizeBytes)) =
        (c.sealer.sealAll (start / c.segmentSize) true
          ((chunks c.segmentSize plaintext).drop (start / c.segmentSize))).flatten := by
    rw [storedForm, (tiled_sealed 0 true (tiled_chunks c.segmentSize_pos plaintext)).drop_flatten,
      c.sealer.drop_sealAll 0 true (hle.trans_lt hlt), Nat.zero_add]
  rw [between, hdr]
  by_cases hls : endInclusive / c.segmentSize = (chunks c.segmentSize plaintext).length - 1
  · -- the range reaches the last segment: all that is left
    have hall : covering c plaintext start endInclusive =
        (chunks c.segmentSize plaintext).drop (start / c.segmentSize) := by
      refine List.take_of_length_le ?_
      rw [length_drop]
      omega
    have hleng := congrArg List.length hdr
    rw [length_drop] at hleng
    rw [storedEnd, if_pos hls, hall, hls, beq_self_eq_true, List.take_of_length_le (by omega)]
  · have hmr : (endInclusive / c.segmentSize ==
        (chunks c.segmentSize plaintext).length - 1) = false := beq_eq_false_iff_ne.mpr hls
    have hrun := run_end hle (Nat.add_pos_left c.segmentSize_pos authenticationTagSizeBytes)
    have htil := tiled_sealed (start / c.segmentSize) true
      ((tiled_chunks c.segmentSize_pos plaintext).drop (start / c.segmentSize))
    have hmo : endInclusive / c.segmentSize - start / c.segmentSize + 1 <
        ((chunks c.segmentSize plaintext).drop (start / c.segmentSize)).length := by
      rw [length_drop]
      generalize endInclusive / c.segmentSize = last at *
      omega
    rw [storedEnd, if_neg hls, hrun, hmr, htil.take_flatten, c.sealer.take_sealAll _ _ hmo]
    rfl

/-- **The range is mapped to the bytes that cover it**, and nothing overflows. -/
theorem plaintextRangeToCiphertext_eq :
    c.plaintextRangeToCiphertext start endInclusive plaintext.length = .ok {
      start := start / c.segmentSize * (c.segmentSize + authenticationTagSizeBytes)
      endInclusive := storedEnd c plaintext endInclusive
      firstSegment := start / c.segmentSize
      includesFinalSegment :=
        endInclusive / c.segmentSize == (chunks c.segmentSize plaintext).length - 1
      skipHead := start - start / c.segmentSize * c.segmentSize } := by
  obtain ⟨hle, hlt⟩ := h.segments
  have htag : authenticationTagSizeBytes = 16 := rfl
  have hcoun := h.counter
  have hbts := h.bytes
  have hseg := h.segment
  have hleng := length_storedForm c plaintext
  rw [htag] at hleng
  have hsto : (storedForm c plaintext).length < 2 ^ 64 := by omega
  have hin := lastSegment_inside c (ne_nil_of_length_pos (Nat.zero_lt_of_lt h.end_lt))
  have hfst : start / c.segmentSize * (c.segmentSize + authenticationTagSizeBytes) < 2 ^ 64 :=
    ((Nat.mul_le_mul_right _ (Nat.le_sub_one_of_lt (hle.trans_lt hlt))).trans_lt hin).trans hsto
  have hend : c.rangeEnd (endInclusive / c.segmentSize ==
      (chunks c.segmentSize plaintext).length - 1) (endInclusive / c.segmentSize)
      (c.segmentSize + authenticationTagSizeBytes) plaintext.length =
        .ok (storedEnd c plaintext endInclusive) := by
    unfold rangeEnd
    by_cases hls : endInclusive / c.segmentSize = (chunks c.segmentSize plaintext).length - 1
    · rw [if_pos (beq_iff_eq.mpr hls), ciphertextLen_eq hcoun hbts, ok_bind,
        minus_of_le (Nat.zero_lt_of_lt hin), storedEnd, if_pos hls]
    · have hnx : (endInclusive / c.segmentSize + 1) *
          (c.segmentSize + authenticationTagSizeBytes) < 2 ^ 64 :=
        ((Nat.mul_le_mul_right _ (Nat.succ_le_of_lt (lt_of_le_of_ne (Nat.le_sub_one_of_lt hlt)
          hls))).trans_lt hin).trans hsto
      have hpos : 1 ≤ (endInclusive / c.segmentSize + 1) *
          (c.segmentSize + authenticationTagSizeBytes) :=
        Nat.mul_pos (Nat.succ_pos _) (Nat.add_pos_left c.segmentSize_pos _)
      rw [if_neg (fun hmr => hls (beq_iff_eq.mp hmr)), u64_of_lt hnx, ok_bind,
        minus_of_le hpos, storedEnd, if_neg hls]
  have hind : start / c.segmentSize < 2 ^ 32 := by
    rw [length_chunks] at hlt
    exact (hle.trans_lt hlt).trans_le hcoun
  unfold plaintextRangeToCiphertext
  rw [ensure_true (And.intro h.start_le h.end_lt), ok_bind, segmentStride,
    u64_of_lt (by omega), ok_bind]
  simp only [← length_chunks]
  rw [minus_of_le (Nat.zero_lt_of_lt hlt), ok_bind, u64_of_lt hfst, ok_bind]
  rw [hend, ok_bind, if_pos hind, context, ok_bind]
  rfl

theorem storedEnd_inside : start / c.segmentSize * (c.segmentSize + authenticationTagSizeBytes) ≤
        storedEnd c plaintext endInclusive ∧
      storedEnd c plaintext endInclusive < (storedForm c plaintext).length := by
  obtain ⟨hle, hlt⟩ := h.segments
  have hstrid := Nat.add_pos_left c.segmentSize_pos authenticationTagSizeBytes
  have hin := lastSegment_inside c (ne_nil_of_length_pos (Nat.zero_lt_of_lt h.end_lt))
  unfold storedEnd
  split
  · rename_i hls
    rw [← hls] at hin
    have hfst := Nat.mul_le_mul_right (c.segmentSize + authenticationTagSizeBytes) hle
    omega
  · rename_i hls
    have hnx : (endInclusive / c.segmentSize + 1) * (c.segmentSize + authenticationTagSizeBytes) ≤
        ((chunks c.segmentSize plaintext).length - 1) *
          (c.segmentSize + authenticationTagSizeBytes) :=
      Nat.mul_le_mul_right _ (Nat.succ_le_of_lt (lt_of_le_of_ne (Nat.le_sub_one_of_lt hlt) hls))
    have hfst := Nat.mul_le_mul_right (c.segmentSize + authenticationTagSizeBytes) hle
    rw [Nat.succ_mul] at hnx ⊢
    omega

/-- What both ways of reading a range of a stored file return. -/
structure ReadsBack (c : SegmentedStreamCipher) (plaintext ciphertext : Bytes)
    (start endInclusive : ℕ) (range : CiphertextRange) : Prop where
  /-- decrypting the whole run at once -/
  atOnce : ∃ opened, c.decryptSegments range.firstSegment range.includesFinalSegment
      (between ciphertext range.start range.endInclusive) = .ok opened ∧
    (opened.drop range.skipHead).take (endInclusive - start + 1) =
      between plaintext start endInclusive
  /-- decrypting one segment at a time, whatever chunks the body arrives in -/
  streamed : ∀ body : List Bytes, body.flatten = between ciphertext range.start range.endInclusive →
      ∃ out, openV2PlaintextStream c body range.start range.endInclusive {
          firstSegment := range.firstSegment
          includesFinalSegment := range.includesFinalSegment
          skip := range.skipHead
          take := endInclusive - start + 1 } = .ok out ∧
        out.flatten = between plaintext start endInclusive

/-- **A range is read back.** -/
theorem readsBack :
    ∃ range, c.plaintextRangeToCiphertext start endInclusive plaintext.length = .ok range ∧
      ReadsBack c plaintext (storedForm c plaintext) start endInclusive range := by
  obtain ⟨hle, hlt⟩ := h.segments
  obtain ⟨hstar, hend⟩ := storedEnd_inside h
  have hcoun := h.counter
  have hbts := h.bytes
  have hseg := h.segment
  have hsto := length_storedForm c plaintext
  rw [show authenticationTagSizeBytes = 16 from rfl] at hsto
  have hstrid : c.segmentSize + authenticationTagSizeBytes < 2 ^ 64 := by
    rw [show authenticationTagSizeBytes = 16 from rfl]
    omega
  have hcov := length_covering h
  have hindi : start / c.segmentSize + (covering c plaintext start endInclusive).length ≤
      2 ^ 32 := by
    rw [length_chunks] at hlt
    rw [hcov, ← Nat.add_assoc, Nat.add_sub_cancel' hle]
    exact (Nat.succ_le_of_lt hlt).trans hcoun
  have hfl : (endInclusive / c.segmentSize == (chunks c.segmentSize plaintext).length - 1) = false →
        ∀ s ∈ covering c plaintext start endInclusive, s.length = c.segmentSize := by
    intro hmr
    rw [beq_eq_false_iff_ne] at hmr
    exact full_covering h (Nat.add_lt_of_lt_sub (lt_of_le_of_ne (Nat.le_sub_one_of_lt hlt) hmr))
  have hseal := between_stored h
  refine ⟨_, plaintextRangeToCiphertext_eq h, ?_, ?_⟩
  · refine ⟨(covering c plaintext start endInclusive).flatten, ?_, window_covering h⟩
    rw [hseal]
    exact decryptSegments_eq _ _ (ne_nil_of_length_pos (by rw [hcov]; omega))
      (tiled_covering c plaintext start endInclusive) hfl hindi hstrid
  · intro body hby
    have hleng : body.flatten.length = storedEnd c plaintext endInclusive -
        start / c.segmentSize * (c.segmentSize + authenticationTagSizeBytes) + 1 :=
      (congrArg List.length hby).trans (length_between hstar hend)
    obtain ⟨out, hop, hout⟩ := openV2PlaintextStream_eq hstrid {
        firstSegment := start / c.segmentSize
        includesFinalSegment :=
          endInclusive / c.segmentSize == (chunks c.segmentSize plaintext).length - 1
        skip := start - start / c.segmentSize * c.segmentSize
        take := endInclusive - start + 1 }
      (tiled_covering c plaintext start endInclusive) hfl hindi (hby.trans hseal) hstar
      (by omega) hleng.symm
    exact ⟨out, hop, hout.trans (window_covering h)⟩

end

end Ranges

/-! ## There and back -/

/-- What segmented storage makes of a file: it is cut into the parts its session asks for; sealed in
any order they make the sequential STREAM encryption of the file; its length is `ciphertext_len`;
and every range is read back. No computation of these ends in an overflow. -/
def RoundTrips (c : SegmentedStreamCipher) (session : UploadSession) (plaintext : Bytes) : Prop :=
  ∃ parts ciphertext, session.cut plaintext = .ok parts ∧
    (∀ order : List ℕ, order.Perm (List.range' 1 parts.length) →
      ∃ stored, encryptParts c parts order = .ok stored ∧ assemble stored = ciphertext) ∧
    encryptorBE32 c 0 (chunks c.segmentSize plaintext) = .ok ciphertext ∧
    c.ciphertextLen plaintext.length = .ok ciphertext.length ∧
    ∀ start endInclusive, start ≤ endInclusive → endInclusive < plaintext.length →
      ∃ range, c.plaintextRangeToCiphertext start endInclusive plaintext.length = .ok range ∧
        ReadsBack c plaintext ciphertext start endInclusive range

/-- **Segmented storage round-trips** for every layout and every non-empty file while the segment
counter holds its segments, an `i32` its part numbers and an `i64` the sum of its size and the part
size. -/
theorem segmented_round_trip (aead : Aead)
    (noncePrefix : { bytes : Bytes // bytes.length = streamNoncePrefixSize })
    (segmentSize partSize : ℕ) {c : SegmentedStreamCipher} {session : UploadSession}
    {plaintext : Bytes} (hlayout : withLayout aead noncePrefix segmentSize partSize = some c)
    (hpart : 0 < partSize) (hne : plaintext ≠ []) (hsized : session.Sized plaintext.length partSize)
    (hparts : (((plaintext.length + (partSize - 1)) / partSize : ℕ) : Int) ≤ maxPartNumber)
    (hcounter : c.segmentCount plaintext.length ≤ 2 ^ 32) : RoundTrips c session plaintext := by
  obtain ⟨rfl, rfl⟩ := layout_eq hlayout
  have hspp : 0 < c.segmentsPerPart := Nat.pos_of_mul_pos_left hpart
  have hlimit : maxI64 = 9223372036854775807 := rfl
  have hfits := hsized.fits
  rw [hsized.totalSize_eq, hsized.chunkSize_eq] at hfits
  have hsegment : c.segmentSize ≤ c.segmentSize * c.segmentsPerPart :=
    Nat.le_mul_of_pos_right _ hspp
  have htiled := tiled_chunks hpart plaintext
  have hflat := flatten_chunks hpart plaintext
  have hlength := htiled.length_eq hpart
  rw [hflat] at hlength
  have hfit : PartsFit c (chunks (c.segmentSize * c.segmentsPerPart) plaintext) := {
    tiled := htiled
    segmentsPerPart_pos := hspp
    numbers := by rw [hlength]; exact hparts
    counter := by rw [hflat]; exact hcounter
    bytes := by rw [hflat]; omega }
  refine ⟨_, storedForm c plaintext, UploadSession.cut_eq hpart hsized hparts, ?_, ?_,
    ciphertextLen_eq hcounter (by omega), fun start endInclusive hle hlt => readsBack {
      start_le := hle
      end_lt := hlt
      counter := hcounter
      bytes := by omega
      segment := by omega }⟩
  · intro order horder
    obtain ⟨stored, hstored, hassembled⟩ := stored_eq hfit (chunks_ne_nil hpart hne) horder
    exact ⟨stored, hstored, by rw [hassembled, hflat]; rfl⟩
  · exact encryptorBE32_eq 0 _ (by rwa [length_chunks, Nat.zero_add])

/-! ## Samples -/

namespace SampleStorage

/-- The nonce, cut or filled up to the size of a tag. -/
def tag (nonce : Bytes) : Bytes :=
  (nonce ++ List.replicate authenticationTagSizeBytes 0).take authenticationTagSizeBytes

theorem length_tag (nonce : Bytes) : (tag nonce).length = authenticationTagSizeBytes := by
  rw [tag, List.length_take, length_append, List.length_replicate]
  omega

/-- Sealing that leaves the bytes as they are and adds the nonce. -/
def aead : Aead where
  encrypt := fun nonce plaintext => plaintext ++ tag nonce
  decrypt := fun nonce ciphertext =>
    if ciphertext.drop (ciphertext.length - authenticationTagSizeBytes) = tag nonce then
      some (ciphertext.take (ciphertext.length - authenticationTagSizeBytes))
    else none
  length_encrypt := fun nonce plaintext => by rw [length_append, length_tag]
  decrypt_encrypt := fun nonce plaintext => by
    rw [length_append, length_tag, Nat.add_sub_cancel, drop_left, if_pos rfl,
      List.take_left]

def noncePrefix : { bytes : Bytes // bytes.length = streamNoncePrefixSize } :=
  ⟨[1, 2, 3, 4, 5, 6, 7], rfl⟩

/-- A session for a file of a size, cut into parts of a size. -/
def session (totalSize chunkSize : Int) : UploadSession where
  id := "01ARZ3NDEKTSV4RRFFQ69G5FAV"
  uploaderId := "01ARZ3NDEKTSV4RRFFQ69G5FAW"
  tag := "attachments"
  filename := "file.bin"
  declaredContentType := "application/octet-stream"
  totalSize := totalSize
  chunkSize := chunkSize
  bucketId := "bucket"
  path := "chunked/01ARZ3NDEKTSV4RRFFQ69G5FAV"
  s3UploadId := "upload"
  noncePrefix := "AQIDBAUGBw=="
  keyId := none
  parts := ∅
  inFlight := ∅
  headB64 := ""
  state := .pending
  compositeHash := none
  fileId := none
  createdAt := 0
  expiresAt := 0

/-- Two segments of two bytes make a part. -/
def cipher : SegmentedStreamCipher where
  cipher := aead
  noncePrefix := noncePrefix.1
  segmentSize := 2
  segmentsPerPart := 2
  length_noncePrefix := rfl
  segmentSize_pos := by decide

end SampleStorage

theorem segmented_round_trip_short_tail :
    RoundTrips SampleStorage.cipher (SampleStorage.session 7 4) [10, 11, 12, 13, 14, 15, 16] :=
  segmented_round_trip SampleStorage.aead SampleStorage.noncePrefix 2 4 rfl (by decide) (by decide)
    ⟨rfl, rfl, by decide⟩ (by decide) (by decide)

/-- **Where the sizes do not fit, counting the parts overflows.** The part size is the largest
`i64`; one byte makes one segment. -/
theorem part_count_overflows : ∃ c, withLayout SampleStorage.aead SampleStorage.noncePrefix
      (2 ^ 63 - 1) (2 ^ 63 - 1) = some c ∧ c.segmentCount 1 ≤ 2 ^ 32 ∧
    (SampleStorage.session 1 (2 ^ 63 - 1)).cut [0] = .panic ∧
    ¬ RoundTrips c (SampleStorage.session 1 (2 ^ 63 - 1)) [0] := by
  have hcut : (SampleStorage.session 1 (2 ^ 63 - 1)).cut [0] = .panic := by decide
  refine ⟨_, rfl, by decide, hcut, ?_⟩
  rintro ⟨parts, ciphertext, hparts, -⟩
  cases hparts

end SlogaBackend.Files
