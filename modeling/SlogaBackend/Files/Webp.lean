import SlogaBackend.Files.Bytes

/-!
# Cleaning a WebP

A WebP is a RIFF file: a size, and chunks in it, each padded to an even length, where the pad of
the last one may be missing. `walkWebp` splits the chunks and writes those of an allowlist again;
of a frame, whose payload is sixteen bytes and chunks of its own, it keeps the image chunks. `Riff`
says what bytes hold which chunks, and `riffLoop_riff` and `exists_riff` that `riffChunks` finds
them if there are any. `webp` is the cleaner, and `walkWebp_performs` says that the walk is the
cleaning.
-/

namespace SlogaBackend.Files

open Cleaning

/-- VP8X flag: the file is animated. -/
def vp8xAnimation : UInt8 := 0x02
/-- VP8X flag: an `XMP ` chunk is present. -/
def vp8xXmp : UInt8 := 0x04
/-- VP8X flag: an `EXIF` chunk is present. -/
def vp8xExif : UInt8 := 0x08

/-- Top-level WebP chunks copied through. -/
def webpKeptChunks : List Bytes :=
  ["VP8X", "VP8 ", "VP8L", "ALPH", "ANIM", "ANMF", "ICCP"].map ascii

/-- Chunks kept inside an `ANMF` frame. -/
def webpFrameChunks : List Bytes := ["ALPH", "VP8 ", "VP8L"].map ascii

def riffLoop (buf : Bytes) (end_ : ℕ) :
    ℕ → ℕ → List (Bytes × Bytes) → Reading (List (Bytes × Bytes))
  | 0, _, _ => .spin
  | fuel + 1, pos, chunks =>
    if pos < end_ then
      let headerEnd := pos + 8
      if end_ < headerEnd then .err .decode
      else do
        let size ← (slice buf (pos + 4) headerEnd).andThen leU32
        let payloadEnd := headerEnd + size
        if end_ < payloadEnd then .err .decode
        else do
          let fourcc ← slice buf pos (pos + 4)
          let payload ← slice buf headerEnd payloadEnd
          -- some writers leave the pad byte off the last chunk; it carries nothing
          riffLoop buf end_ fuel (min (payloadEnd + (size &&& 1)) end_)
            (chunks ++ [(fourcc, payload)])
    else .ok chunks

/-- Split `buf[start..end]` into RIFF chunks. -/
def riffChunks (buf : Bytes) (start end_ : ℕ) : Reading (List (Bytes × Bytes)) :=
  riffLoop buf end_ (buf.length + 1) start []

/-- Append a RIFF chunk, padding it to an even length. -/
def pushRiffChunk (out fourcc payload : Bytes) : Bytes :=
  out ++ (fourcc ++ (leBytes (payload.length % 2 ^ 32) ++
    (payload ++ if payload.length % 2 = 1 then [0] else [])))

/-- Whether the file is animated, as its `VP8X` chunk says. -/
def readVp8x (animated : Bool) (payload : Bytes) : Reading Bool :=
  if payload.length < 10 then .err .decode
  else do
    let flags ← index payload 0
    .ok (animated || decide (flags &&& vp8xAnimation ≠ 0))

/-- `vp8x[0] &= !(VP8X_EXIF | VP8X_XMP)`. -/
def clearFlags (payload : Bytes) : Bytes :=
  payload.modify 0 fun flags => flags &&& ~~~(vp8xExif ||| vp8xXmp)

/-- The frame header: `x / 2`, `y / 2`, `width - 1`, `height - 1`; the frame must lie inside the
canvas. -/
def checkFrame (width height : ℕ) (payload : Bytes) : Reading Unit :=
  if payload.length < 16 then .err .decode
  else do
    let x ← (slice payload 0 3).andThen leU24
    let y ← (slice payload 3 6).andThen leU24
    let frameWidth ← (slice payload 6 9).andThen leU24
    let frameHeight ← (slice payload 9 12).andThen leU24
    if width < 2 * x + (frameWidth + 1) ∨ height < 2 * y + (frameHeight + 1) then .err .decode
    else .ok ()

/-- The chunks of a frame that are kept, behind its header. -/
def rebuildFrame (head : Bytes) (inner : List (Bytes × Bytes)) : Bytes :=
  inner.foldl (fun frame chunk =>
    if chunk.1 ∈ webpFrameChunks then pushRiffChunk frame chunk.1 chunk.2 else frame) head

/-- The `match fourcc` of the loop. -/
def webpChunk (width height : ℕ) (fourcc payload out : Bytes) (animated : Bool) :
    Reading (Bytes × Bool) :=
  if fourcc = ascii "VP8X" then do
    let animated ← readVp8x animated payload
    .ok (pushRiffChunk out fourcc (clearFlags payload), animated)
  else if fourcc = ascii "ANIM" then .ok (pushRiffChunk out fourcc payload, true)
  else if fourcc = ascii "ANMF" then do
    checkFrame width height payload
    let head ← slice payload 0 16
    let inner ← riffChunks payload 16 payload.length
    .ok (pushRiffChunk out fourcc (rebuildFrame head inner), animated)
  else if fourcc ∈ webpKeptChunks then .ok (pushRiffChunk out fourcc payload, animated)
  else .ok (out, animated)

def webpLoop (width height : ℕ) : List (Bytes × Bytes) → Bytes → Bool → Reading (Bytes × Bool)
  | [], out, animated => .ok (out, animated)
  | (fourcc, payload) :: chunks, out, animated => do
    let next ← webpChunk width height fourcc payload out animated
    webpLoop width height chunks next.1 next.2

/-- `u32::try_from`, a refusal when the number is too large. -/
def tryU32 (n : ℕ) : Reading ℕ := if n < 2 ^ 32 then .ok n else .err .decode

/-- `buf[a..b].copy_from_slice(bytes)`. -/
def copyFromSlice (buf : Bytes) (a b : ℕ) (bytes : Bytes) : Reading Bytes :=
  if a ≤ b ∧ b ≤ buf.length ∧ bytes.length = b - a then .ok (buf.take a ++ bytes ++ buf.drop b)
  else .panic

/-- Walk a WebP's RIFF chunks, dropping metadata, returning the cleaned file and whether it is
animated. -/
def walkWebp (buf : Bytes) (width height : ℕ) : Reading (Bytes × Bool) :=
  if buf.length < 12 then .err .decode
  else do
    let size ← (slice buf 4 8).andThen leU32
    let riffEnd := 8 + size
    if buf.length < riffEnd ∨ riffEnd < 12 then .err .decode
    else do
      let chunks ← riffChunks buf 12 riffEnd
      let (out, animated) ← webpLoop width height chunks
        (ascii "RIFF" ++ ([0, 0, 0, 0] ++ ascii "WEBP")) false
      let riffSize ← tryU32 (out.length - 8)
      let out ← copyFromSlice out 4 8 (leBytes riffSize)
      .ok (out, animated)

/-! ## RIFF chunks -/

@[ext] structure RiffChunk where
  fourcc : Bytes
  payload : Bytes
  fourcc_length : fourcc.length = 4
  payload_length : payload.length < 2 ^ 32

def RiffChunk.slices (c : RiffChunk) : Bytes × Bytes := (c.fourcc, c.payload)

variable {cs : List RiffChunk}

/-- The bytes are these chunks, each padded, but for the last perhaps. -/
inductive Riff : Bytes → List RiffChunk → Prop where
  | nil : Riff [] []
  | cons (c : RiffChunk) {pad rest : Bytes} {cs : List RiffChunk} :
      pad.length = c.payload.length % 2 → Riff rest cs →
      Riff (c.fourcc ++ (leBytes c.payload.length ++ (c.payload ++ (pad ++ rest)))) (c :: cs)
  | unpadded (c : RiffChunk) : Riff (c.fourcc ++ (leBytes c.payload.length ++ c.payload)) [c]

section Riff

variable {buf after : Bytes}

theorem riffLoop_chunk (fuel : ℕ) {pos : ℕ} (end_ : ℕ) (c : RiffChunk) (more : Bytes)
    (chunks : List (Bytes × Bytes)) (hpos : pos ≤ buf.length)
    (h : buf.drop pos = c.fourcc ++ (leBytes c.payload.length ++ (c.payload ++ (more ++ after))))
    (hend : end_ = pos + (8 + c.payload.length + more.length)) :
    riffLoop buf end_ (fuel + 1) pos chunks =
      riffLoop buf end_ fuel (min (pos + 8 + c.payload.length + c.payload.length % 2) end_)
        (chunks ++ [c.slices]) := by
  have hfr := c.fourcc_length
  have hsz : slice buf (pos + 4) (pos + 8) = .ok (leBytes c.payload.length) :=
    slice_ahead c.fourcc _ hpos h (by rw [hfr]) rfl
  have hfou : slice buf pos (pos + 4) = .ok c.fourcc := slice_ahead [] _ hpos h rfl (by rw [hfr])
  have hpayl : slice buf (pos + 8) (pos + 8 + c.payload.length) = .ok c.payload := by
    refine slice_ahead (c.fourcc ++ leBytes c.payload.length) (more ++ after) hpos ?_ ?_ rfl
    · rw [h, append_assoc]
    · rw [length_append, hfr, length_leBytes]
  rw [riffLoop]
  rw [if_pos (by omega), if_neg (by omega), leU32_slice c.payload_length hsz, ok_bind,
    if_neg (by omega), hfou, ok_bind, hpayl, ok_bind, Nat.and_one_is_mod,
    RiffChunk.slices]

theorem riffLoop_end (fuel : ℕ) {pos : ℕ} (chunks : List (Bytes × Bytes)) :
    riffLoop buf pos (fuel + 1) pos chunks = .ok chunks := if_neg (Nat.lt_irrefl pos)

/-- **The chunks of a region are found.** -/
theorem riffLoop_riff {region : Bytes} (hrf : Riff region cs) :
    ∀ {fuel pos end_ : ℕ} (chunks : List (Bytes × Bytes)), pos ≤ buf.length →
      buf.drop pos = region ++ after → end_ = pos + region.length → buf.length < pos + fuel →
      riffLoop buf end_ fuel pos chunks = .ok (chunks ++ cs.map RiffChunk.slices) := by
  induction hrf with
  | nil =>
    intro fuel pos end_ chunks hpos _ hend hfl
    obtain ⟨fuel, rfl⟩ := Nat.exists_eq_succ_of_ne_zero (show fuel ≠ 0 by omega)
    subst hend
    exact (riffLoop_end fuel chunks).trans (by rw [List.map_nil, append_nil])
  | @cons c pad rest cs hpad _ ih =>
    intro fuel pos end_ chunks hpos h hend hfl
    obtain ⟨fuel, rfl⟩ := Nat.exists_eq_succ_of_ne_zero (show fuel ≠ 0 by omega)
    have hlen := length_ahead h hpos
    have hfr := c.fourcc_length
    simp only [length_append, length_leBytes] at hlen hend
    simp only [append_assoc] at h
    have hmr : buf.drop pos = c.fourcc ++ (leBytes c.payload.length ++ (c.payload ++
        ((pad ++ rest) ++ after))) := by rw [h, append_assoc]
    have htr := riffLoop_chunk fuel end_ c _ chunks hpos hmr (by rw [length_append]; omega)
    have hmin : min (pos + 8 + c.payload.length + c.payload.length % 2) end_ =
        pos + (4 + (4 + (c.payload.length + pad.length))) := by omega
    have hrs : buf.drop (pos + (4 + (4 + (c.payload.length + pad.length)))) = rest ++ after := by
      rw [← drop_drop, h, ← drop_drop, drop_left' hfr, ← drop_drop,
        drop_left' (length_leBytes _), ← drop_drop, drop_left, drop_left]
    rw [htr, hmin, ih _ (by omega) hrs (by omega) (by omega), append_assoc]
    rfl
  | unpadded c =>
    intro fuel pos end_ chunks hpos h hend hfl
    obtain ⟨fuel, rfl⟩ := Nat.exists_eq_succ_of_ne_zero (show fuel ≠ 0 by omega)
    have hlen := length_ahead h hpos
    have hfr := c.fourcc_length
    simp only [length_append, length_leBytes] at hlen hend
    simp only [append_assoc] at h
    have htr := riffLoop_chunk fuel end_ c [] chunks hpos h (by rw [List.length_nil]; omega)
    have hmin : min (pos + 8 + c.payload.length + c.payload.length % 2) end_ = end_ := by omega
    obtain ⟨fuel, rfl⟩ := Nat.exists_eq_succ_of_ne_zero (show fuel ≠ 0 by omega)
    rw [htr, hmin, riffLoop_end]
    rfl

/-- **What is found are the chunks of the region.** -/
theorem exists_riff : ∀ (fuel pos end_ : ℕ) (region : Bytes) (chunks : List (Bytes × Bytes)),
    pos ≤ buf.length → buf.drop pos = region ++ after → end_ = pos + region.length →
    buf.length < pos + fuel →
    riffLoop buf end_ fuel pos chunks = .err .decode ∨ ∃ cs, Riff region cs
  | 0, _, _, _, _, hpos, _, _, hfl => absurd hfl (by omega)
  | fuel + 1, pos, end_, region, chunks, hpos, h, hend, hfl => by
    cases region with
    | nil => exact .inr ⟨[], .nil⟩
    | cons byte tail =>
      have hlen := length_ahead h hpos
      by_cases height : 8 ≤ (byte :: tail).length
      swap
      · refine .inl ?_
        rw [riffLoop]
        rw [if_pos (by rw [hend, length_cons]; omega), if_pos (by omega)]
      obtain ⟨head, body, hreg, hhd⟩ := exists_cut height
      obtain ⟨fourcc, length, rfl, hfou⟩ := exists_cut (n := 4) (by omega : 4 ≤ head.length)
      rw [length_append] at hhd
      obtain ⟨n, hn, rfl⟩ := exists_leBytes (by omega : length.length = 4)
      rw [hreg] at h hend hlen ⊢
      simp only [append_assoc, length_append, length_leBytes] at h hend hlen
      by_cases hrm : n ≤ body.length
      swap
      · refine .inl ?_
        have hsz : slice buf (pos + 4) (pos + 8) = .ok (leBytes n) :=
          slice_ahead fourcc _ hpos h (by rw [hfou]) rfl
        rw [riffLoop]
        rw [if_pos (by omega), if_neg (by omega), leU32_slice hn hsz, ok_bind]
        exact if_pos (by omega)
      obtain ⟨payload, more, rfl, hpayl⟩ := exists_cut hrm
      subst hpayl
      rw [length_append] at hend hlen
      let c : RiffChunk := ⟨fourcc, payload, hfou, hn⟩
      rw [append_assoc] at h
      have htr := riffLoop_chunk fuel end_ c more chunks hpos h
        (by change end_ = pos + (8 + payload.length + more.length); omega)
      by_cases hpad : payload.length % 2 ≤ more.length
      · obtain ⟨pad, rest, rfl, hpadl⟩ := exists_cut hpad
        simp only [length_append, append_assoc] at hend hlen h
        have hmin : min (pos + 8 + payload.length + payload.length % 2) end_ =
            pos + (4 + (4 + (payload.length + pad.length))) := by omega
        have hrs : buf.drop (pos + (4 + (4 + (payload.length + pad.length)))) = rest ++ after := by
          rw [← drop_drop, h, ← drop_drop, drop_left' hfou, ← drop_drop,
            drop_left' (length_leBytes _), ← drop_drop, drop_left, drop_left]
        rw [htr, hmin]
        obtain herr | ⟨cs, hcs⟩ := exists_riff fuel _ end_ rest (chunks ++ [c.slices])
          (by omega) hrs (by omega) (by omega)
        · exact .inl herr
        · refine .inr ⟨c :: cs, ?_⟩
          rw [append_assoc]
          exact .cons c hpadl hcs
      · obtain rfl := List.eq_nil_of_length_eq_zero (by omega : more.length = 0)
        refine .inr ⟨[c], ?_⟩
        rw [append_assoc, append_nil]
        exact .unpadded c

end Riff

/-! ## The blocks -/

def riffBytes (fourcc payload : Bytes) : Bytes := pushRiffChunk [] fourcc payload

theorem pushRiffChunk_eq (out fourcc payload : Bytes) :
    pushRiffChunk out fourcc payload = out ++ riffBytes fourcc payload := by
  unfold riffBytes pushRiffChunk
  rw [List.nil_append]

/-- The chunks of a frame, one after another. -/
def encodeChunks (cs : List RiffChunk) : Bytes := cs.flatMap fun c => riffBytes c.fourcc c.payload

/-- A block of a WebP: a chunk that is no frame, or a frame with its header and its own chunks. -/
inductive WebpBlock where
  | plain (c : RiffChunk) (not_frame : c.fourcc ≠ ascii "ANMF")
  | frame (head : Bytes) (inner : List RiffChunk) (head_length : head.length = 16)

namespace WebpBlock

/-- The kind of the chunk a block is written as. -/
def fourcc : WebpBlock → Bytes
  | plain c _ => c.fourcc
  | frame _ _ _ => ascii "ANMF"

/-- The payload of the chunk a block is written as. -/
def payload : WebpBlock → Bytes
  | plain c _ => c.payload
  | frame head inner _ => head ++ encodeChunks inner

/-- The chunk is the block. -/
inductive Reads : RiffChunk → WebpBlock → Prop where
  | plain (c : RiffChunk) (h : c.fourcc ≠ ascii "ANMF") : Reads c (plain c h)
  | frame (c : RiffChunk) {head body : Bytes} {inner : List RiffChunk} (h : head.length = 16) :
      c.fourcc = ascii "ANMF" → c.payload = head ++ body → Riff body inner →
      Reads c (frame head inner h)

/-- The checks of a block, with the flag that the file is animated. -/
def check (width height : ℕ) (animated : Bool) : WebpBlock → Reading Bool
  | plain c _ =>
    if c.fourcc = ascii "VP8X" then readVp8x animated c.payload
    else if c.fourcc = ascii "ANIM" then .ok true
    else .ok animated
  | frame head _ _ => (checkFrame width height head).andThen fun _ => .ok animated

/-- A `VP8X` chunk with the flags of `EXIF` and `XMP` cleared. -/
def clearedVp8x (c : RiffChunk) : RiffChunk where
  fourcc := c.fourcc
  payload := clearFlags c.payload
  fourcc_length := c.fourcc_length
  payload_length := by
    rw [clearFlags, List.length_modify]
    exact c.payload_length

/-- What is kept of a block. -/
def clean : WebpBlock → Option WebpBlock
  | plain c h =>
    if c.fourcc = ascii "VP8X" then some (plain (clearedVp8x c) h)
    else if c.fourcc ∈ webpKeptChunks then some (plain c h)
    else none
  | frame head inner h => some (frame head (inner.filter fun c => c.fourcc ∈ webpFrameChunks) h)

theorem clean_cases {b b' : WebpBlock} (h : clean b = some b') :
    (∃ c hc, c.fourcc = ascii "VP8X" ∧ b = plain c hc ∧ b' = plain (clearedVp8x c) hc) ∨
      (∃ c hc, c.fourcc ≠ ascii "VP8X" ∧ c.fourcc ∈ webpKeptChunks ∧ b = plain c hc ∧ b' = b) ∨
      ∃ head inner hhd, b = frame head inner hhd ∧
        b' = frame head (inner.filter fun c => c.fourcc ∈ webpFrameChunks) hhd := by
  cases b with
  | plain c hc =>
    unfold clean at h
    dsimp only at h
    by_cases hvp8x : c.fourcc = ascii "VP8X"
    · rw [if_pos hvp8x] at h
      exact .inl ⟨c, hc, hvp8x, rfl, (Option.some.inj h).symm⟩
    · rw [if_neg hvp8x] at h
      obtain ⟨hkp, hsm⟩ := Option.ite_none_right_eq_some.mp h
      exact .inr (.inl ⟨c, hc, hvp8x, hkp, rfl, (Option.some.inj hsm).symm⟩)
  | frame head inner hhd => exact .inr (.inr ⟨head, inner, hhd, rfl, (Option.some.inj h).symm⟩)

theorem clearFlags_clearFlags (payload : Bytes) :
    clearFlags (clearFlags payload) = clearFlags payload := by
  cases payload with
  | nil => rfl
  | cons flags rest =>
    change ((flags &&& _) &&& _) :: rest = (flags &&& _) :: rest
    rw [UInt8.and_assoc, UInt8.and_self]

theorem readVp8x_clearFlags (animated : Bool) (payload : Bytes) :
    readVp8x animated (clearFlags payload) = readVp8x animated payload := by
  have hlen : (clearFlags payload).length = payload.length := List.length_modify ..
  unfold readVp8x
  rw [hlen]
  cases payload with
  | nil => rfl
  | cons flags rest =>
    have hms : ~~~(vp8xExif ||| vp8xXmp) &&& vp8xAnimation = vp8xAnimation := by decide
    have hfg : (flags &&& ~~~(vp8xExif ||| vp8xXmp)) &&& vp8xAnimation =
        flags &&& vp8xAnimation := by
      rw [UInt8.and_assoc, hms]
    change (if _ then _ else Outcome.ok (animated || decide ((flags &&& _) &&& _ ≠ 0))) =
      (if _ then _ else Outcome.ok (animated || decide (flags &&& vp8xAnimation ≠ 0)))
    rw [hfg]

theorem clearedVp8x_clearedVp8x (c : RiffChunk) : clearedVp8x (clearedVp8x c) = clearedVp8x c :=
  RiffChunk.ext rfl (clearFlags_clearFlags c.payload)

end WebpBlock

/-- The cleaner of a WebP. -/
def webp (width height : ℕ) : Cleaner WebpBlock Bool SanitizeError where
  start := false
  check := WebpBlock.check width height
  clean := WebpBlock.clean
  clean_clean := by
    intro b b' h
    obtain ⟨c, hc, hvp8x, rfl, rfl⟩ | ⟨c, hc, -, -, -, rfl⟩ | ⟨head, inner, hhead, rfl, rfl⟩ :=
      WebpBlock.clean_cases h
    · refine (if_pos hvp8x).trans ?_
      congr 2
      exact WebpBlock.clearedVp8x_clearedVp8x c
    · exact h
    · rw [WebpBlock.clean, List.filter_filter]
      simp
  check_clean := by
    intro b b' animated h
    obtain ⟨c, hc, hvp8x, rfl, rfl⟩ | ⟨c, hc, -, -, -, rfl⟩ | ⟨head, inner, hhead, rfl, rfl⟩ :=
      WebpBlock.clean_cases h
    · refine (if_pos hvp8x).trans (Eq.trans ?_ (if_pos hvp8x).symm)
      exact WebpBlock.readVp8x_clearFlags animated c.payload
    · rfl
    · rfl
  check_dropped := by
    intro b animated h
    cases b with
    | plain c hc =>
      unfold WebpBlock.clean at h
      dsimp only at h
      have hvp8x : c.fourcc ≠ ascii "VP8X" := fun heq => nomatch (if_pos heq).symm.trans h
      rw [if_neg hvp8x] at h
      have hanim : c.fourcc ≠ ascii "ANIM" := by
        intro heq
        have hkept : c.fourcc ∈ webpKeptChunks := by
          rw [heq]
          decide
        nomatch (if_pos hkept).symm.trans h
      rw [WebpBlock.check, if_neg hvp8x, if_neg hanim]
    | frame head inner hhead => nomatch h

/-! ## The file -/

/-- The bytes of a row of blocks. -/
def encodeWebp (bs : List WebpBlock) : Bytes := bs.flatMap fun b => riffBytes b.fourcc b.payload

theorem encodeWebp_cons (b : WebpBlock) (bs : List WebpBlock) :
    encodeWebp (b :: bs) = riffBytes b.fourcc b.payload ++ encodeWebp bs := List.flatMap_cons

theorem encodeChunks_cons (c : RiffChunk) (cs : List RiffChunk) :
    encodeChunks (c :: cs) = riffBytes c.fourcc c.payload ++ encodeChunks cs := List.flatMap_cons

theorem riffBytes_append (c : RiffChunk) (rest : Bytes) :
    riffBytes c.fourcc c.payload ++ rest = c.fourcc ++ (leBytes c.payload.length ++
      (c.payload ++ ((if c.payload.length % 2 = 1 then [0] else []) ++ rest))) := by
  rw [riffBytes, pushRiffChunk, Nat.mod_eq_of_lt c.payload_length]
  simp

theorem length_pad (n : ℕ) : (if n % 2 = 1 then [0] else [] : Bytes).length = n % 2 := by
  by_cases h : n % 2 = 1
  · rw [if_pos h, h]
    rfl
  · rw [if_neg h, List.length_nil]
    omega

theorem Riff.cons_riffBytes (c : RiffChunk) {rest : Bytes}
    (h : Riff rest cs) : Riff (riffBytes c.fourcc c.payload ++ rest) (c :: cs) := by
  rw [riffBytes_append]
  exact .cons c (length_pad _) h

theorem riff_encodeChunks : ∀ cs : List RiffChunk, Riff (encodeChunks cs) cs
  | [] => .nil
  | c :: cs => by exact .cons_riffBytes c (riff_encodeChunks cs)

theorem WebpBlock.exists_reads (b : WebpBlock) (h : b.payload.length < 2 ^ 32) :
    ∃ c : RiffChunk, Reads c b ∧ c.fourcc = b.fourcc ∧ c.payload = b.payload := by
  cases b with
  | plain c hc => exact ⟨c, .plain c hc, rfl, rfl⟩
  | frame head inner hhd =>
    exact ⟨⟨ascii "ANMF", head ++ encodeChunks inner, rfl, h⟩,
      .frame _ hhd rfl rfl (riff_encodeChunks inner), rfl, rfl⟩

theorem exists_riff_encodeWebp : ∀ bs : List WebpBlock, (encodeWebp bs).length < 2 ^ 32 →
    ∃ cs, Riff (encodeWebp bs) cs ∧ List.Forall₂ WebpBlock.Reads cs bs
  | [], _ => ⟨[], .nil, .nil⟩
  | b :: bs, h => by
    have hpayl : b.payload.length ≤ (riffBytes b.fourcc b.payload).length := by
      rw [riffBytes, pushRiffChunk]
      simp
      omega
    rw [encodeWebp_cons, length_append] at h
    obtain ⟨c, hread, hfou, hpay⟩ := b.exists_reads (by omega)
    obtain ⟨cs, hcs, hall⟩ := exists_riff_encodeWebp bs (by omega)
    refine ⟨c :: cs, ?_, .cons hread hall⟩
    rw [encodeWebp_cons, ← hfou, ← hpay]
    exact .cons_riffBytes c hcs

/-- A WebP as it is written: with the size of what follows the size. -/
def writeWebp (bs : List WebpBlock) : Bytes :=
  ascii "RIFF" ++ (leBytes (4 + (encodeWebp bs).length) ++ (ascii "WEBP" ++ encodeWebp bs))

theorem length_writeWebp (bs : List WebpBlock) :
    (writeWebp bs).length = 12 + (encodeWebp bs).length := by
  rw [writeWebp, length_append, length_append, length_append, length_leBytes]
  change 4 + (4 + (4 + _)) = _
  omega

variable {bs : List WebpBlock}

theorem size_writeWebp (h : (writeWebp bs).length - 8 < 2 ^ 32) :
    (slice (writeWebp bs) 4 8).andThen leU32 = .ok ((writeWebp bs).length - 8) := by
  have hlen : (writeWebp bs).length - 8 = 4 + (encodeWebp bs).length := by
    rw [length_writeWebp]
    omega
  rw [hlen] at h ⊢
  refine leU32_slice h ?_
  exact slice_ahead (ascii "RIFF") _ (Nat.zero_le _) (show (writeWebp bs).drop 0 = _ from rfl) rfl rfl

/-- A file that holds the blocks: two words that are not looked at, around the size of what follows
it, and then the chunks; what the size does not cover is not part of the file. -/
def HoldsWebp (buf : Bytes) (bs : List WebpBlock) : Prop :=
  ∃ magic tag region rest cs, magic.length = 4 ∧ tag.length = 4 ∧ 4 + region.length < 2 ^ 32 ∧
    buf = magic ++ (leBytes (4 + region.length) ++ (tag ++ (region ++ rest))) ∧ Riff region cs ∧
      List.Forall₂ WebpBlock.Reads cs bs

theorem holdsWebp_writeWebp (h : (writeWebp bs).length - 8 < 2 ^ 32) :
    HoldsWebp (writeWebp bs) bs := by
  rw [length_writeWebp] at h
  obtain ⟨cs, hrf, hread⟩ := exists_riff_encodeWebp bs (by omega)
  refine ⟨ascii "RIFF", ascii "WEBP", encodeWebp bs, [], cs, rfl, rfl, by omega, ?_, hrf, hread⟩
  rw [writeWebp, append_nil]

/-- How a WebP holds its blocks. -/
def webpContainer (width height : ℕ) : Container (webp width height) UInt8 Unit where
  Frames buf _ bs := HoldsWebp buf bs
  write _ bs := writeWebp bs
  Fits out := out.length - 8 < 2 ^ 32
  frames_cleaned := fun _ hfits => holdsWebp_writeWebp hfits

/-! ## The walk -/

section Walk

variable (width height : ℕ)

theorem exists_leU24 (buf : Bytes) (a : ℕ) (h : a + 3 ≤ buf.length) :
    ∃ n, (slice buf a (a + 3)).andThen leU24 = .ok n := by
  obtain ⟨mid, hmid, hlen⟩ := exists_slice (Nat.le_add_right a 3) h
  have hthr : mid.length = 3 := hlen.trans (Nat.add_sub_cancel_left a 3)
  match mid, hthr with
  | [x, y, z], _ => exact ⟨_, by rw [hmid]; rfl⟩

theorem readVp8x_settled (animated : Bool) (payload : Bytes) :
    (∃ animated', readVp8x animated payload = .ok animated') ∨
      readVp8x animated payload = .err .decode := by
  unfold readVp8x
  by_cases hlen : payload.length < 10
  · exact .inr (if_pos hlen)
  · rw [if_neg hlen]
    obtain ⟨flags, rest, rfl⟩ := List.exists_cons_of_length_pos (l := payload) (by omega)
    exact .inl ⟨_, rfl⟩

theorem checkFrame_settled (payload : Bytes) : checkFrame width height payload = .ok () ∨
    checkFrame width height payload = .err .decode := by
  unfold checkFrame
  by_cases hlen : payload.length < 16
  · exact .inr (if_pos hlen)
  · rw [if_neg hlen]
    obtain ⟨x, hx⟩ := exists_leU24 payload 0 (by omega)
    obtain ⟨y, hy⟩ := exists_leU24 payload 3 (by omega)
    obtain ⟨frameWidth, hw⟩ := exists_leU24 payload 6 (by omega)
    obtain ⟨frameHeight, hh⟩ := exists_leU24 payload 9 (by omega)
    rw [hx, hy, hw, hh]
    by_cases hcan : width < 2 * x + (frameWidth + 1) ∨ height < 2 * y + (frameHeight + 1)
    · exact .inr (if_pos hcan)
    · exact .inl (if_neg hcan)

theorem slice_append {front back : Bytes} {a b : ℕ} (hab : a ≤ b) (hb : b ≤ front.length) :
    slice (front ++ back) a b = slice front a b := by
  have hlen : b ≤ (front ++ back).length := by
    rw [length_append]
    omega
  have hcut : b - a ≤ (front.drop a).length := by
    rw [length_drop]
    omega
  unfold slice getRange
  rw [if_pos ⟨hab, hlen⟩, if_pos ⟨hab, hb⟩, List.drop_append_of_le_length (by omega),
    List.take_append_of_le_length hcut]

variable {head buf : Bytes}

theorem checkFrame_append (body : Bytes) (h : head.length = 16) :
    checkFrame width height (head ++ body) = checkFrame width height head := by
  have hlen : (head ++ body).length = 16 + body.length := by rw [length_append, h]
  unfold checkFrame
  rw [if_neg (by omega), if_neg (by omega), slice_append (by omega) (by omega),
    slice_append (by omega) (by omega), slice_append (by omega) (by omega),
    slice_append (by omega) (by omega)]

theorem rebuildFrame_slices (cs : List RiffChunk) (head : Bytes) :
    rebuildFrame head (cs.map RiffChunk.slices) =
      head ++ encodeChunks (cs.filter fun c => c.fourcc ∈ webpFrameChunks) := by
  induction cs generalizing head with
  | nil => exact (append_nil head).symm
  | cons c cs ih =>
    have hst : rebuildFrame head ((c :: cs).map RiffChunk.slices) =
        rebuildFrame (if c.fourcc ∈ webpFrameChunks then pushRiffChunk head c.fourcc c.payload
          else head) (cs.map RiffChunk.slices) := rfl
    rw [hst, ih]
    by_cases hkp : c.fourcc ∈ webpFrameChunks
    · rw [if_pos hkp, List.filter_cons, if_pos (decide_eq_true hkp), encodeChunks_cons,
        pushRiffChunk_eq, append_assoc]
    · rw [if_neg hkp, List.filter_cons, if_neg fun h => hkp (of_decide_eq_true h)]

theorem riffChunks_body (body : Bytes) (hhd : head.length = 16) :
    (∀ {cs}, Riff body cs → riffChunks (head ++ body) 16 (head ++ body).length =
      .ok (cs.map RiffChunk.slices)) ∧
    (riffChunks (head ++ body) 16 (head ++ body).length = .err .decode ∨ ∃ cs, Riff body cs) := by
  have hlen : (head ++ body).length = 16 + body.length := by rw [length_append, hhd]
  have hdr : (head ++ body).drop 16 = body ++ [] := by rw [append_nil, drop_left' hhd]
  exact ⟨fun hrf => riffLoop_riff hrf [] (by omega) hdr hlen (by omega),
    exists_riff _ 16 _ body [] (by omega) hdr hlen (by omega)⟩

variable {c : RiffChunk} {bs : List WebpBlock}

/-- **A turn over a chunk that is a block writes what the cleaner keeps of it.** -/
theorem webpChunk_reads {b : WebpBlock} (h : WebpBlock.Reads c b) (out : Bytes) (animated : Bool)
    : webpChunk width height c.fourcc c.payload out animated =
      (WebpBlock.check width height animated b).andThen fun animated' =>
        .ok (out ++ encodeWebp (WebpBlock.clean b).toList, animated') := by
  have hone : ∀ b' : WebpBlock, encodeWebp (some b').toList = riffBytes b'.fourcc b'.payload :=
    fun b' => (encodeWebp_cons b' []).trans (append_nil _)
  cases h with
  | plain hc =>
    unfold webpChunk WebpBlock.check WebpBlock.clean
    dsimp only
    by_cases hvp8x : c.fourcc = ascii "VP8X"
    · rw [if_pos hvp8x, if_pos hvp8x, if_pos hvp8x, hone, pushRiffChunk_eq]
      rfl
    rw [if_neg hvp8x, if_neg hvp8x, if_neg hvp8x]
    by_cases han : c.fourcc = ascii "ANIM"
    · have hkp : c.fourcc ∈ webpKeptChunks := by
        rw [han]
        decide
      rw [if_pos han, if_pos han, if_pos hkp, hone, pushRiffChunk_eq]
      rfl
    rw [if_neg han, if_neg han, if_neg hc]
    by_cases hkp : c.fourcc ∈ webpKeptChunks
    · rw [if_pos hkp, if_pos hkp, hone, pushRiffChunk_eq]
      rfl
    · rw [if_neg hkp, if_neg hkp]
      exact congrArg (fun l => Outcome.ok (l, animated)) (append_nil out).symm
  | @frame head body inner hhd ham hpayl hrf =>
    have hslic : slice (head ++ body) 0 16 = .ok head := by
      have hdr : (head ++ body).drop 0 = [] ++ (head ++ body) := rfl
      exact slice_ahead [] body (Nat.zero_le _) hdr rfl (by rw [hhd])
    have hvp8x : ascii "ANMF" ≠ ascii "VP8X" := by decide
    have han : ascii "ANMF" ≠ ascii "ANIM" := by decide
    rw [webpChunk, ham, hpayl, if_neg hvp8x, if_neg han, if_pos rfl,
      checkFrame_append width height body hhd, hslic, ok_bind,
      (riffChunks_body body hhd).1 hrf, ok_bind, rebuildFrame_slices, pushRiffChunk_eq,
      WebpBlock.clean, hone, WebpBlock.check]
    cases checkFrame width height head <;> rfl

theorem webpChunk_refuses (h : ¬ ∃ b, WebpBlock.Reads c b) (out : Bytes) (animated : Bool) :
    webpChunk width height c.fourcc c.payload out animated = .err .decode := by
  by_cases ham : c.fourcc = ascii "ANMF"
  swap
  · exact absurd ⟨.plain c ham, .plain c ham⟩ h
  have hvp8x : ascii "ANMF" ≠ ascii "VP8X" := by decide
  have han : ascii "ANMF" ≠ ascii "ANIM" := by decide
  rw [webpChunk, ham, if_neg hvp8x, if_neg han, if_pos rfl]
  obtain hok | herr := checkFrame_settled width height c.payload
  swap
  · rw [herr]
    rfl
  have hlen : 16 ≤ c.payload.length := by
    by_contra hshor
    have herr : checkFrame width height c.payload = .err .decode := if_pos (by omega)
    exact nomatch hok.symm.trans herr
  obtain ⟨head, body, hpayl, hhd⟩ := exists_cut hlen
  have hslic : slice (head ++ body) 0 16 = .ok head := by
    have hdr : (head ++ body).drop 0 = [] ++ (head ++ body) := rfl
    exact slice_ahead [] body (Nat.zero_le _) hdr rfl (by rw [hhd])
  obtain herr | ⟨inner, hrf⟩ := (riffChunks_body body hhd).2
  · rw [hok, ok_bind, hpayl, hslic, ok_bind, herr]
    rfl
  · exact absurd ⟨_, .frame c hhd ham hpayl hrf⟩ h

theorem webpCheck_settled (animated : Bool) (b : WebpBlock) :
    (∃ animated', WebpBlock.check width height animated b = .ok animated') ∨
      WebpBlock.check width height animated b = .err .decode := by
  cases b with
  | plain c hc =>
    rw [WebpBlock.check]
    by_cases hvp8x : c.fourcc = ascii "VP8X"
    · rw [if_pos hvp8x]
      exact readVp8x_settled animated c.payload
    rw [if_neg hvp8x]
    by_cases han : c.fourcc = ascii "ANIM"
    · exact .inl ⟨_, if_pos han⟩
    · exact .inl ⟨_, if_neg han⟩
  | frame head inner hhd =>
    rw [WebpBlock.check]
    obtain hok | herr := checkFrame_settled width height head
    · exact .inl ⟨animated, by rw [hok]; rfl⟩
    · exact .inr (by rw [herr]; rfl)

/-- **The loop over chunks that are blocks writes the cleaned blocks.** -/
theorem webpLoop_reads (h : List.Forall₂ WebpBlock.Reads cs bs) (out : Bytes)
    (animated : Bool) : webpLoop width height (cs.map RiffChunk.slices) out animated =
      ((webp width height).checkAll animated bs).andThen fun animated' =>
        .ok (out ++ encodeWebp ((webp width height).cleaned bs), animated') := by
  induction h generalizing out animated with
  | nil => exact congrArg (fun l => Outcome.ok (l, animated)) (append_nil out).symm
  | @cons c b cs bs hc _ ih =>
    have hclean : encodeWebp ((webp width height).cleaned (b :: bs)) =
        encodeWebp (WebpBlock.clean b).toList ++ encodeWebp ((webp width height).cleaned bs) := by
      cases hb : WebpBlock.clean b with
      | none => rw [Cleaner.cleaned_cons_none (show (webp width height).clean b = none from hb)]; rfl
      | some b' =>
        rw [Cleaner.cleaned_cons_some (show (webp width height).clean b = some b' from hb),
          encodeWebp_cons, Option.toList_some, encodeWebp_cons]
        exact congrArg (· ++ _) (append_nil _).symm
    have htr := webpChunk_reads width height hc out animated
    rw [List.map_cons, RiffChunk.slices, webpLoop, htr]
    obtain ⟨animated', hok⟩ | herr := webpCheck_settled width height animated b
    · rw [hok, ok_andThen, ok_bind, ih, Cleaner.checkAll_cons_ok hok, hclean,
        append_assoc]
    · rw [herr, Cleaner.checkAll]
      rw [show (webp width height).check animated b = .err .decode from herr]
      rfl

theorem exists_reads_of_webpLoop : ∀ (cs : List RiffChunk) (out : Bytes) (animated : Bool),
    webpLoop width height (cs.map RiffChunk.slices) out animated = .err .decode ∨
      ∃ bs, List.Forall₂ WebpBlock.Reads cs bs
  | [], _, _ => .inr ⟨[], .nil⟩
  | c :: cs, out, animated => by
    rw [List.map_cons, RiffChunk.slices, webpLoop]
    by_cases hc : ∃ b, WebpBlock.Reads c b
    swap
    · exact .inl (by rw [webpChunk_refuses width height hc]; rfl)
    obtain ⟨b, hb⟩ := hc
    rw [webpChunk_reads width height hb]
    obtain ⟨animated', hok⟩ | herr := webpCheck_settled width height animated b
    · rw [hok, ok_andThen, ok_bind]
      obtain herr | ⟨bs, hbs⟩ := exists_reads_of_webpLoop cs _ animated'
      · exact .inl herr
      · exact .inr ⟨b :: bs, .cons hb hbs⟩
    · exact .inl (by rw [herr]; rfl)

theorem checkAll_settled (bs : List WebpBlock) (animated : Bool) :
    (∃ animated', (webp width height).checkAll animated bs = .ok animated') ∨
      (webp width height).checkAll animated bs = .err .decode := by
  induction bs generalizing animated with
  | nil => exact .inl ⟨animated, rfl⟩
  | cons b bs ih =>
    have hcn : (webp width height).checkAll animated (b :: bs) =
        (WebpBlock.check width height animated b).andThen fun animated' =>
          (webp width height).checkAll animated' bs := rfl
    rw [hcn]
    obtain ⟨animated', hok⟩ | herr := webpCheck_settled width height animated b
    · rw [hok, ok_andThen]
      exact ih animated'
    · exact .inr (by rw [herr]; rfl)

theorem copyFromSlice_size (bs : List WebpBlock) :
    copyFromSlice (ascii "RIFF" ++ ([0, 0, 0, 0] ++ ascii "WEBP") ++ encodeWebp bs) 4 8
      (leBytes (4 + (encodeWebp bs).length)) = .ok (writeWebp bs) := by
  have hlen : (ascii "RIFF" ++ ([0, 0, 0, 0] ++ ascii "WEBP") ++ encodeWebp bs).length =
      12 + (encodeWebp bs).length := by
    rw [length_append]
    rfl
  exact if_pos ⟨by omega, by omega, rfl⟩

theorem drop_header {magic size tag more : Bytes} (hmag : magic.length = 4)
    (hsz : size.length = 4) (htag : tag.length = 4) (h : buf = magic ++ (size ++ (tag ++ more))) :
    buf.drop 12 = more := by
  have hhd : (magic ++ (size ++ tag)).length = 12 := by
    rw [length_append, length_append, hmag, hsz, htag]
  have hspl : buf = (magic ++ (size ++ tag)) ++ more := by
    rw [h]
    simp
  rw [hspl, drop_left' hhd]

/-- **The walk over a file that holds blocks.** -/
theorem walkWebp_holds (h : HoldsWebp buf bs) :
    walkWebp buf width height = ((webp width height).checkAll false bs).andThen fun animated =>
      if (writeWebp ((webp width height).cleaned bs)).length - 8 < 2 ^ 32 then
        .ok (writeWebp ((webp width height).cleaned bs), animated)
      else .err .decode := by
  obtain ⟨magic, tag, region, rest, cs, hmag, htag, hft, hbuf, hrf, hread⟩ := h
  have hlen := congrArg List.length hbuf
  simp only [length_append, length_leBytes] at hlen
  have hsz : slice buf 4 8 = .ok (leBytes (4 + region.length)) :=
    slice_ahead magic _ (Nat.zero_le _) (show buf.drop 0 = _ from hbuf) (by rw [hmag]) rfl
  have hdr := drop_header hmag (length_leBytes _) htag hbuf
  have hchun : riffChunks buf 12 (8 + (4 + region.length)) = .ok (cs.map RiffChunk.slices) :=
    riffLoop_riff hrf [] (by omega) hdr (by omega) (by omega)
  unfold walkWebp
  rw [if_neg (by omega), leU32_slice hft hsz, ok_bind]
  dsimp only
  rw [if_neg (by omega), hchun, ok_bind, webpLoop_reads width height hread]
  obtain ⟨animated, hok⟩ | herr := checkAll_settled width height bs false
  swap
  · rw [herr]
    rfl
  rw [hok, ok_andThen, ok_andThen, ok_bind]
  have hout : (ascii "RIFF" ++ ([0, 0, 0, 0] ++ ascii "WEBP") ++
      encodeWebp ((webp width height).cleaned bs)).length - 8 =
        4 + (encodeWebp ((webp width height).cleaned bs)).length := by
    rw [length_append]
    change 12 + _ - 8 = _
    omega
  have hwr : (writeWebp ((webp width height).cleaned bs)).length - 8 =
      4 + (encodeWebp ((webp width height).cleaned bs)).length := by
    rw [length_writeWebp]
    omega
  rw [hout, hwr]
  unfold tryU32
  by_cases hrm : 4 + (encodeWebp ((webp width height).cleaned bs)).length < 2 ^ 32
  · rw [if_pos hrm, if_pos hrm, ok_bind, copyFromSlice_size, ok_bind]
  · rw [if_neg hrm, if_neg hrm, Outcome.err_bind]

theorem walkWebp_refuses (h : ¬ ∃ bs, HoldsWebp buf bs) :
    walkWebp buf width height = .err .decode := by
  unfold walkWebp
  by_cases hshor : buf.length < 12
  · exact if_pos hshor
  obtain ⟨magic, tail, hbuf, hmag⟩ := exists_cut (n := 4) (by omega : 4 ≤ buf.length)
  have hlen := congrArg List.length hbuf
  rw [length_append] at hlen
  obtain ⟨size, tail, rfl, hsz⟩ := exists_cut (n := 4) (by omega : 4 ≤ tail.length)
  rw [length_append] at hlen
  obtain ⟨tag, body, rfl, htag⟩ := exists_cut (n := 4) (by omega : 4 ≤ tail.length)
  rw [length_append] at hlen
  obtain ⟨n, hn, rfl⟩ := exists_leBytes hsz
  have hslic : slice buf 4 8 = .ok (leBytes n) :=
    slice_ahead magic _ (Nat.zero_le _) (show buf.drop 0 = _ from hbuf) (by rw [hmag]) rfl
  rw [if_neg hshor, leU32_slice hn hslic, ok_bind]
  by_cases hgd : buf.length < 8 + n ∨ 8 + n < 12
  · exact if_pos hgd
  obtain ⟨region, rest, rfl, hreg⟩ := exists_cut (n := n - 4) (by omega : n - 4 ≤ body.length)
  obtain rfl : n = 4 + region.length := by omega
  have hdr := drop_header hmag (length_leBytes _) htag hbuf
  rw [if_neg hgd]
  obtain herr | ⟨cs, hrf⟩ := exists_riff (buf.length + 1) 12 (8 + (4 + region.length)) region []
    (by omega) hdr (by omega) (by omega)
  · have hchun : riffChunks buf 12 (8 + (4 + region.length)) = .err .decode := herr
    rw [hchun, Outcome.err_bind]
  have hchun : riffChunks buf 12 (8 + (4 + region.length)) = .ok (cs.map RiffChunk.slices) :=
    riffLoop_riff hrf [] (by omega) hdr (by omega) (by omega)
  rw [hchun, ok_bind]
  obtain herr | ⟨bs, hbs⟩ := exists_reads_of_webpLoop width height cs
    (ascii "RIFF" ++ ([0, 0, 0, 0] ++ ascii "WEBP")) false
  · rw [herr, Outcome.err_bind]
  · exact absurd ⟨bs, magic, tag, region, rest, cs, hmag, htag, hn, hbuf, hrf, hbs⟩ h

/-- **Cleaning a WebP is parsing it, dropping and reducing chunks, and writing them again.** -/
theorem walkWebp_performs :
    Performs (webpContainer width height) id fun buf => walkWebp buf width height where
  settled buf := by
    by_cases h : ∃ bs, HoldsWebp buf bs
    · obtain ⟨bs, hbs⟩ := h
      rw [walkWebp_holds width height hbs]
      obtain ⟨animated, hok⟩ | herr := checkAll_settled width height bs false
      · rw [hok, ok_andThen]
        split <;> trivial
      · rw [herr]
        trivial
    · rw [walkWebp_refuses width height h]
      trivial
  ok_iff := by
    intro buf out animated
    constructor
    · intro hwl
      by_cases h : ∃ bs, HoldsWebp buf bs
      swap
      · rw [walkWebp_refuses width height h] at hwl
        nomatch hwl
      obtain ⟨bs, hbs⟩ := h
      rw [walkWebp_holds width height hbs] at hwl
      obtain ⟨animated', hok⟩ | herr := checkAll_settled width height bs false
      swap
      · rw [herr] at hwl
        nomatch hwl
      rw [hok, ok_andThen] at hwl
      by_cases hft : (writeWebp ((webp width height).cleaned bs)).length - 8 < 2 ^ 32
      · rw [if_pos hft] at hwl
        cases hwl
        exact ⟨(), bs, _, hbs, hok, hft, rfl, rfl⟩
      · rw [if_neg hft] at hwl
        nomatch hwl
    · rintro ⟨_, bs, animated', hbs, hok, hft, rfl, hani⟩
      have hstar : (webp width height).checkAll false bs = .ok animated' := hok
      rw [walkWebp_holds width height hbs, hstar, ok_andThen, hani]
      exact if_pos hft

end Walk

/-- The flags of the dropped chunks are cleared. -/
example : walkWebp (ascii "RIFF" ++ [31, 0, 0, 0] ++ ascii "WEBP" ++ ascii "VP8X" ++ [10, 0, 0, 0] ++
    [0x0e, 0, 0, 0, 0, 0, 0, 0, 0, 0] ++ ascii "EXIF" ++ [1, 0, 0, 0] ++ [5]) 1 1 =
      .ok (ascii "RIFF" ++ [22, 0, 0, 0] ++ ascii "WEBP" ++ ascii "VP8X" ++ [10, 0, 0, 0] ++
        [0x02, 0, 0, 0, 0, 0, 0, 0, 0, 0], true) := by
  decide +kernel

end SlogaBackend.Files
