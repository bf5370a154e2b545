import SlogaBackend.Files.StreamCipher

/-!
# Streaming decryption

A stored object is served without holding it. The body of the range request arrives in chunks of
any size. A buffer is filled up to one sealed segment, the segment is opened, and what the range
does not cover is trimmed off its head and its tail.

`openV2PlaintextStream_eq` is the result: whatever the chunks are, the stream comes to an end
without an error, and the bytes it yields are the window of the opened segments.
-/

namespace SlogaBackend.Files

open Segments

/-- What to emit from a fetched ciphertext run. -/
structure PlaintextWindow where
  firstSegment : ℕ
  includesFinalSegment : Bool
  skip : ℕ
  take : ℕ

namespace Streaming

/-- What the stream holds between two items. -/
structure State where
  body : List Bytes
  buf : Bytes
  bodyDone : Bool
  emittedSegments : ℕ
  segmentCount : ℕ
  firstSegment : ℕ
  includesFinalSegment : Bool
  skip : ℕ
  take : ℕ

/-- Fill the buffer up to one sealed segment: the buffer, the chunks left, and whether the body has
ended. -/
def fill (stride : ℕ) : List Bytes → Bytes → Bool → Bytes × List Bytes × Bool
  | body, buf, true => (buf, body, true)
  | [], buf, false => if buf.length < stride then (buf, [], true) else (buf, [], false)
  | chunk :: body, buf, false =>
    if buf.length < stride then fill stride body (buf ++ chunk) false
    else (buf, chunk :: body, false)

/-- The next sealed segment of the buffer, and what stays in it. -/
def takeBlock (stride : ℕ) (isLast bodyDone : Bool) (buf : Bytes) : Checked (Bytes × Bytes) :=
  if stride ≤ buf.length ∧ isLast = false then .ok (buf.take stride, buf.drop stride)
  else if isLast = true ∧ bodyDone = true ∧ buf ≠ [] then .ok (buf, [])
  else if stride ≤ buf.length then .ok (buf.take stride, buf.drop stride)
  else .err "truncated ciphertext stream"

/-- One turn of the loop: `none` at the end, else the plaintext of one segment, trimmed. -/
def turn (c : SegmentedStreamCipher) (st : State) : Checked (Option (Bytes × State)) := do
  if st.emittedSegments = st.segmentCount ∨ st.take = 0 then
    return none
  else do
    let stride ← c.segmentStride
    let lastSegment ← minus st.segmentCount 1
    let isLast := st.emittedSegments == lastSegment
    let filled := fill stride st.body st.buf st.bodyDone
    let block ← takeBlock stride isLast filled.2.2 filled.1
    let segmentIndex ← context (if st.firstSegment + asU32 st.emittedSegments < 2 ^ 32 then
        some (st.firstSegment + asU32 st.emittedSegments) else none)
      "segment counter overflow"
    let opened ← c.decryptSegments segmentIndex (st.includesFinalSegment && isLast) block.1
    -- head trim for mid-segment range starts
    let dropped := min st.skip opened.length
    let plaintext := opened.drop dropped
    -- tail trim for mid-segment range ends
    let plaintext := if st.take < plaintext.length then plaintext.take st.take else plaintext
    let left ← minus st.take plaintext.length
    return some (plaintext, { st with
      body := filled.2.1
      buf := block.2
      bodyDone := filled.2.2
      emittedSegments := st.emittedSegments + 1
      skip := st.skip - dropped
      take := left })

/-- The items of the stream, in order. A turn whose plaintext is empty yields none. -/
def items (c : SegmentedStreamCipher) : ℕ → State → Checked (List Bytes)
  | 0, _ => .spin
  | fuel + 1, st => do
    match ← turn c st with
    | none => return []
    | some (plaintext, next) =>
      let rest ← items c fuel next
      return if plaintext = [] then rest else plaintext :: rest

end Streaming

/-- Open a decrypting stream over an inclusive ciphertext byte range of an object: the items it
yields when the body arrives as `body`. -/
def openV2PlaintextStream (c : SegmentedStreamCipher) (body : List Bytes)
    (ciphertextStart ciphertextEndInclusive : ℕ) (window : PlaintextWindow) :
    Checked (List Bytes) := do
  let stride ← c.segmentStride
  let ciphertextLen ← minus ciphertextEndInclusive ciphertextStart
  let ciphertextLen ← u64 (ciphertextLen + 1)
  let segmentCount := (ciphertextLen + (stride - 1)) / stride
  Streaming.items c (segmentCount + 1) {
    body := body
    buf := []
    bodyDone := false
    emittedSegments := 0
    segmentCount := segmentCount
    firstSegment := window.firstSegment
    includesFinalSegment := window.includesFinalSegment
    skip := window.skip
    take := window.take }

namespace Streaming

/-! ## One segment at a time -/

/-- **Filling moves bytes from the body to the buffer**, and stops with a whole segment or with
everything there is. -/
theorem fill_spec (stride : ℕ) : ∀ (body : List Bytes) (buf : Bytes) (bodyDone : Bool),
    (bodyDone = true → body = []) →
      (fill stride body buf bodyDone).1 ++ (fill stride body buf bodyDone).2.1.flatten =
          buf ++ body.flatten ∧
        ((fill stride body buf bodyDone).2.2 = true → (fill stride body buf bodyDone).2.1 = []) ∧
        (stride ≤ (fill stride body buf bodyDone).1.length ∨
          (fill stride body buf bodyDone).2.2 = true)
  | body, buf, true, h => by
    rw [h rfl]
    exact ⟨rfl, fun _ => rfl, .inr rfl⟩
  | [], buf, false, _ => by
    by_cases hlt : buf.length < stride
    · rw [fill, if_pos hlt]
      exact ⟨rfl, fun _ => rfl, .inr rfl⟩
    · rw [fill, if_neg hlt]
      exact ⟨rfl, fun _ => rfl, .inl (Nat.le_of_not_lt hlt)⟩
  | chunk :: body, buf, false, _ => by
    by_cases hlt : buf.length < stride
    · rw [fill, if_pos hlt]
      obtain ⟨hbts, hdn, hfil⟩ := fill_spec stride body (buf ++ chunk) false nofun
      exact ⟨by rw [hbts, flatten_cons, append_assoc], hdn, hfil⟩
    · rw [fill, if_neg hlt]
      exact ⟨rfl, nofun, .inl (Nat.le_of_not_lt hlt)⟩

theorem takeBlock_spec {stride : ℕ} (isLast bodyDone : Bool) {buf ahead block later : Bytes}
    (hbts : buf ++ ahead = block ++ later) (hdn : bodyDone = true → ahead = [])
    (hfil : stride ≤ buf.length ∨ bodyDone = true) (hne : block ≠ [])
    (hls : isLast = true → later = [] ∧ block.length ≤ stride)
    (hmr : isLast = false → block.length = stride) :
    ∃ buf', takeBlock stride isLast bodyDone buf = .ok (block, buf') ∧ buf' ++ ahead = later := by
  have hleng := congrArg List.length hbts
  simp only [length_append] at hleng
  cases isLast with
  | false =>
    -- the next block is a whole one, so the buffer holds it
    have hbloc := hmr rfl
    have hle : stride ≤ buf.length := by
      refine hfil.elim id fun hend => ?_
      rw [hdn hend, List.length_nil] at hleng
      omega
    obtain ⟨htk, hdr⟩ : buf.take stride = block ∧ buf.drop stride ++ ahead = later := by
      rw [← List.take_append_drop stride buf, append_assoc] at hbts
      exact append_inj hbts (by rw [List.length_take, Nat.min_eq_left hle, hbloc])
    refine ⟨buf.drop stride, ?_, hdr⟩
    rw [takeBlock, if_pos ⟨hle, rfl⟩, htk]
  | true =>
    -- the last block is all that is left
    obtain ⟨rfl, hbloc⟩ := hls rfl
    rw [append_nil] at hbts
    rw [List.length_nil] at hleng
    by_cases hle : stride ≤ buf.length
    · have hahe : ahead = [] := List.length_eq_zero_iff.mp (by omega)
      rw [hahe, append_nil] at hbts
      subst hbts
      refine ⟨[], ?_, by rw [hahe]; rfl⟩
      have htk : buf.take stride = buf := List.take_of_length_le (by omega)
      have hdr : buf.drop stride = [] := List.drop_eq_nil_of_le (by omega)
      unfold takeBlock
      rw [if_neg (fun h => nomatch h.2)]
      split
      · rfl
      · rw [htk, hdr]
    · have hend := hfil.resolve_left hle
      rw [hdn hend, append_nil] at hbts
      subst hbts
      refine ⟨[], ?_, by rw [hdn hend]; rfl⟩
      rw [takeBlock, if_neg (fun h => hle h.1), if_pos ⟨rfl, hend, hne⟩]

/-- Between two items: the bytes that have not been opened yet are `segments`, sealed. -/
structure Ahead (c : SegmentedStreamCipher) (st : State) (segments : List Bytes) : Prop where
  bytes : st.buf ++ st.body.flatten =
    (c.sealer.sealAll (st.firstSegment + st.emittedSegments) st.includesFinalSegment
      segments).flatten
  bodyDone : st.bodyDone = true → st.body = []
  count : st.emittedSegments + segments.length = st.segmentCount
  tiled : Tiled c.segmentSize segments
  full : st.includesFinalSegment = false → ∀ s ∈ segments, s.length = c.segmentSize
  counter : st.firstSegment + st.segmentCount ≤ 2 ^ 32

/-- The window of some bytes. -/
def window (skip take : ℕ) (bytes : Bytes) : Bytes := (bytes.drop skip).take take

theorem trim_eq (skip take : ℕ) (s : Bytes) :
    (if take < (s.drop (min skip s.length)).length then (s.drop (min skip s.length)).take take
      else s.drop (min skip s.length)) = window skip take s := by
  have hdr : s.drop (min skip s.length) = s.drop skip := by
    rcases Nat.le_total skip s.length with hle | hle
    · rw [Nat.min_eq_left hle]
    · rw [Nat.min_eq_right hle, List.drop_length, List.drop_eq_nil_of_le hle]
  rw [hdr, window]
  split
  · rfl
  · rw [List.take_of_length_le (by omega)]

theorem window_append (skip take : ℕ) (s t : Bytes) :
    window skip take (s ++ t) = window skip take s ++
      window (skip - min skip s.length) (take - (window skip take s).length) t := by
  have hsk : skip - min skip s.length = skip - s.length := by omega
  have htk : take - (window skip take s).length = take - (s.drop skip).length := by
    rw [window, List.length_take]
    omega
  rw [hsk, htk, window, window, window, List.drop_append, List.take_append]

variable {c : SegmentedStreamCipher}

/-- **One turn opens the next segment.** -/
theorem turn_spec {st : State} {s : Bytes} {rest : List Bytes}
    (hstrid : c.segmentSize + authenticationTagSizeBytes < 2 ^ 64) (h : Ahead c st (s :: rest))
    (htk : st.take ≠ 0) : ∃ next, turn c st = .ok (some (window st.skip st.take s, next)) ∧
      Ahead c next rest ∧ next.skip = st.skip - min st.skip s.length ∧
      next.take = st.take - (window st.skip st.take s).length := by
  have hcnt := h.count
  have hcoun := h.counter
  rw [length_cons] at hcnt
  have hs : s ≠ [] := h.tiled.ne_nil c.segmentSize_pos
  have hwhol : rest.isEmpty = false → s.length = c.segmentSize := h.tiled.length_eq_of_more
  have hls : (st.emittedSegments == st.segmentCount - 1) = rest.isEmpty := by
    rw [Bool.eq_iff_iff, beq_iff_eq, List.isEmpty_iff, ← List.length_eq_zero_iff]
    omega
  have hind : (if st.firstSegment + asU32 st.emittedSegments < 2 ^ 32 then
      some (st.firstSegment + asU32 st.emittedSegments) else none) =
        some (st.firstSegment + st.emittedSegments) := by
    unfold asU32
    rw [Nat.mod_eq_of_lt (by omega), if_pos (by omega)]
  -- the buffer holds the next block
  obtain ⟨hbts, hdn, hfil⟩ := fill_spec (c.segmentSize + authenticationTagSizeBytes)
    st.body st.buf st.bodyDone h.bodyDone
  have hbloc := c.sealer.length_encrypt (st.firstSegment + st.emittedSegments)
    (st.includesFinalSegment && rest.isEmpty) s
  rw [h.bytes, Sealer.sealAll_cons, flatten_cons] at hbts
  obtain ⟨buf', hbuf', hahe⟩ := takeBlock_spec rest.isEmpty
    (fill (c.segmentSize + authenticationTagSizeBytes) st.body st.buf st.bodyDone).2.2 hbts (fun hend => by rw [hdn hend]; rfl) hfil
    (ne_nil_of_length_pos (by
      rw [hbloc]
      exact Nat.add_pos_left (List.length_pos_iff.mpr hs) _))
    (fun hend => by
      rw [List.isEmpty_iff] at hend
      subst hend
      exact ⟨rfl, by rw [hbloc]; exact Nat.add_le_add_right h.tiled.length_le _⟩)
    (fun hmr => by rw [hbloc, hwhol hmr]; rfl)
  -- and it is opened
  have hop : c.decryptSegments (st.firstSegment + st.emittedSegments)
      (st.includesFinalSegment && rest.isEmpty)
      (c.sealer.encrypt (st.firstSegment + st.emittedSegments)
        (st.includesFinalSegment && rest.isEmpty) s) = .ok s := by
    have hseg := SegmentedStreamCipher.decryptSegments_eq (c := c)
      (st.firstSegment + st.emittedSegments) (st.includesFinalSegment && rest.isEmpty) (List.cons_ne_nil s [])
      (Tiled.last hs h.tiled.length_le) (fun hmk t ht => by
        rw [List.mem_singleton] at ht
        exact ht ▸ SegmentedStreamCipher.length_of_unmarked h.tiled h.full hmk)
      (by rw [List.length_singleton]; omega) hstrid
    rwa [Sealer.sealAll_singleton, flatten_cons, List.flatten_nil, append_nil,
      flatten_cons, List.flatten_nil, append_nil] at hseg
  refine ⟨{ st with
    body := (fill (c.segmentSize + authenticationTagSizeBytes) st.body st.buf st.bodyDone).2.1
    buf := buf'
    bodyDone := (fill (c.segmentSize + authenticationTagSizeBytes) st.body st.buf st.bodyDone).2.2
    emittedSegments := st.emittedSegments + 1
    skip := st.skip - min st.skip s.length
    take := st.take - (window st.skip st.take s).length }, ?_, ?_, rfl, rfl⟩
  · have hle : (window st.skip st.take s).length ≤ st.take := List.length_take_le _ _
    unfold turn
    rw [if_neg (by omega), SegmentedStreamCipher.segmentStride, u64_of_lt hstrid, ok_bind,
      minus_of_le (by omega), ok_bind]
    simp only [hls, hbuf', hind, context, hop, trim_eq, ok_bind, minus_of_le hle]
    rfl
  · exact {
      bytes := hahe
      bodyDone := hdn
      count := by
        show st.emittedSegments + 1 + rest.length = st.segmentCount
        omega
      tiled := h.tiled.tail
      full := fun hfin t ht => h.full hfin t (mem_cons_of_mem s ht)
      counter := hcoun }

/-- **The stream yields the window of the opened segments**, and comes to an end. -/
theorem items_spec (hstrid : c.segmentSize + authenticationTagSizeBytes < 2 ^ 64) :
    ∀ {segments : List Bytes} (fuel : ℕ) (st : State), Ahead c st segments →
      segments.length < fuel →
        ∃ out, items c fuel st = .ok out ∧ out.flatten = window st.skip st.take segments.flatten
  | [], fuel + 1, st, h, _ => by
    have hend : st.emittedSegments = st.segmentCount := h.count
    refine ⟨[], ?_, by simp [window]⟩
    rw [items, turn, if_pos (.inl hend)]
    rfl
  | s :: rest, fuel + 1, st, h, hfl => by
    rw [length_cons] at hfl
    by_cases htk : st.take = 0
    · refine ⟨[], ?_, by rw [window, htk, List.take_zero, List.flatten_nil]⟩
      rw [items, turn, if_pos (.inr htk)]
      rfl
    · obtain ⟨next, htr, hnx, hsk, hlf⟩ := turn_spec hstrid h htk
      obtain ⟨out, hite, hout⟩ := items_spec hstrid fuel next hnx (by omega)
      refine ⟨if window st.skip st.take s = [] then out else window st.skip st.take s :: out,
        ?_, ?_⟩
      · rw [items, htr, ok_bind]
        simp only [hite, ok_bind]
        rfl
      · rw [flatten_cons, window_append, ← hsk, ← hlf, ← hout]
        split
        · rename_i hemp
          rw [hemp, List.nil_append]
        · rw [flatten_cons]

end Streaming

/-- **The stream yields the window of what was sealed**, whatever chunks the body arrives in. -/
theorem openV2PlaintextStream_eq {c : SegmentedStreamCipher}
    (hstrid : c.segmentSize + authenticationTagSizeBytes < 2 ^ 64) {segments : List Bytes}
    (window : PlaintextWindow) (htil : Tiled c.segmentSize segments)
    (hfu : window.includesFinalSegment = false → ∀ s ∈ segments, s.length = c.segmentSize)
    (hcoun : window.firstSegment + segments.length ≤ 2 ^ 32) {body : List Bytes}
    {start endInclusive : ℕ} (hbd : body.flatten =
      (c.sealer.sealAll window.firstSegment window.includesFinalSegment segments).flatten)
    (hle : start ≤ endInclusive) (hlt : endInclusive < 2 ^ 64 - 1)
    (hlen : endInclusive - start + 1 = body.flatten.length) :
    ∃ out, openV2PlaintextStream c body start endInclusive window = .ok out ∧
      out.flatten = Streaming.window window.skip window.take segments.flatten := by
  have hcnt : (body.flatten.length + (c.segmentSize + authenticationTagSizeBytes - 1)) /
      (c.segmentSize + authenticationTagSizeBytes) = segments.length := by
    have hseal := (SegmentedStreamCipher.tiled_sealed window.firstSegment
      window.includesFinalSegment htil).length_eq (Nat.add_pos_left c.segmentSize_pos _)
    rw [Sealer.length_sealAll] at hseal
    rw [hbd, hseal]
  obtain ⟨out, hite, hout⟩ := Streaming.items_spec hstrid (segments.length + 1) {
      body := body
      buf := []
      bodyDone := false
      emittedSegments := 0
      segmentCount := segments.length
      firstSegment := window.firstSegment
      includesFinalSegment := window.includesFinalSegment
      skip := window.skip
      take := window.take } {
      bytes := hbd
      bodyDone := nofun
      count := Nat.zero_add _
      tiled := htil
      full := hfu
      counter := hcoun } (Nat.lt_succ_self _)
  refine ⟨out, ?_, hout⟩
  unfold openV2PlaintextStream
  rw [SegmentedStreamCipher.segmentStride, u64_of_lt hstrid, ok_bind, minus_of_le hle,
    ok_bind, u64_of_lt (by omega), ok_bind]
  simp only [hlen, hcnt]
  exact hite

end SlogaBackend.Files
