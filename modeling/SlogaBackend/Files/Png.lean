import SlogaBackend.Files.Bytes

/-!
# Cleaning a PNG

`walkPng` steps over the chunks of a PNG and copies those of an allowlist. A chunk is a length, a
kind, that many bytes of data and a checksum, and `png` is the cleaner of such chunks: what
`examine` checks is the code's own `match` on the kind. `walkPng_performs` says that the walk is
the cleaning, for any canvas the file was announced with.
-/

namespace SlogaBackend.Files

open Cleaning

def pngSignature : Bytes := [0x89, 0x50, 0x4e, 0x47, 0x0d, 0x0a, 0x1a, 0x0a]

/-- PNG chunks copied through when an animated PNG is cleaned. -/
def pngKeptChunks : List Bytes :=
  ["IHDR", "PLTE", "IDAT", "IEND", "tRNS", "cHRM", "gAMA", "iCCP", "sBIT", "sRGB",
    "cICP", "mDCv", "cLLi", "bKGD", "pHYs", "acTL", "fcTL", "fdAT"].map ascii

/-- A PNG with its metadata chunks removed. -/
structure PngWalk where
  bytes : Bytes
  animated : Bool
  deriving DecidableEq

/-- The two locals the loop carries beside the output. -/
structure PngScan where
  seenIdat : Bool
  frames : Option ℕ

/-- The `match kind` of the loop. -/
def examine (width height : ℕ) (s : PngScan) (kind data : Bytes) : Reading PngScan :=
  if kind = ascii "acTL" ∧ s.seenIdat = false then
    if data.length ≠ 8 then .err .decode
    else do
      let frames ← (slice data 0 4).andThen beU32
      .ok { s with frames := some frames }
  else if kind = ascii "IDAT" then .ok { s with seenIdat := true }
  else if kind = ascii "fcTL" then
    if data.length ≠ 26 then .err .decode
    else do
      let frameWidth ← (slice data 4 8).andThen beU32
      let frameHeight ← (slice data 8 12).andThen beU32
      let x ← (slice data 12 16).andThen beU32
      let y ← (slice data 16 20).andThen beU32
      if width < x + frameWidth ∨ height < y + frameHeight then .err .decode else .ok s
  else .ok s

/-- A kept chunk is copied whole, so the checksum already in the file stays valid. -/
def copyKept (buf : Bytes) (pos chunkEnd : ℕ) (kind : Bytes) : Reading Bytes :=
  if kind ∈ pngKeptChunks then slice buf pos chunkEnd else .ok []

/-- The loop of `walk_png`, one chunk a turn. -/
def pngLoop (width height : ℕ) (buf : Bytes) : ℕ → ℕ → PngScan → Bytes → Reading (Bytes × PngScan)
  | 0, _, _, _ => .spin
  | fuel + 1, pos, s, out =>
    let dataStart := pos + 8
    if buf.length < dataStart then .err .decode
    else do
      let length ← (slice buf pos (pos + 4)).andThen beU32
      let kind ← slice buf (pos + 4) dataStart
      let dataEnd := dataStart + length
      let chunkEnd := dataEnd + 4
      if buf.length < chunkEnd then .err .decode
      else do
        let data ← slice buf dataStart dataEnd
        let s' ← examine width height s kind data
        let copied ← copyKept buf pos chunkEnd kind
        if kind = ascii "IEND" then .ok (out ++ copied, s')
        else pngLoop width height buf fuel chunkEnd s' (out ++ copied)

/-- Walk a PNG's chunks, dropping metadata and reading whether it is animated. -/
def walkPng (buf : Bytes) (width height : ℕ) : Reading PngWalk :=
  if buf.length < pngSignature.length ∨ buf.take pngSignature.length ≠ pngSignature then
    .err .decode
  else
    (pngLoop width height buf (buf.length + 1) pngSignature.length ⟨false, none⟩
      pngSignature).onOk fun p => ⟨p.1, p.2.frames.any (1 < ·)⟩

/-! ## The chunks -/

@[ext] structure PngChunk where
  kind : Bytes
  data : Bytes
  crc : Bytes
  kind_length : kind.length = 4
  data_length : data.length < 2 ^ 32
  crc_length : crc.length = 4

namespace PngChunk

/-- The bytes of a chunk. -/
def print (c : PngChunk) : Bytes := beBytes c.data.length ++ (c.kind ++ (c.data ++ c.crc))

theorem length_print (c : PngChunk) : c.print.length = 12 + c.data.length := by
  unfold print
  rw [length_append, length_append, length_append, length_beBytes, c.kind_length,
    c.crc_length]
  omega

theorem print_ne_nil (c : PngChunk) : c.print ≠ [] := List.cons_ne_nil _ _

theorem print_inj {c c' : PngChunk} {rest rest' : Bytes}
    (h : c.print ++ rest = c'.print ++ rest') : c = c' ∧ rest = rest' := by
  unfold print at h
  simp only [append_assoc] at h
  obtain ⟨hleng, h⟩ := append_inj h rfl
  have hdat := beBytes_inj c.data_length c'.data_length hleng
  obtain ⟨hkn, h⟩ := append_inj h (c.kind_length.trans c'.kind_length.symm)
  obtain ⟨hdt, h⟩ := append_inj h hdat
  obtain ⟨hcrc, hrs⟩ := append_inj h (c.crc_length.trans c'.crc_length.symm)
  exact ⟨PngChunk.ext hkn hdt hcrc, hrs⟩

end PngChunk

variable {kind body : Bytes}

theorem examine_dropped (width height : ℕ) (s : PngScan) (data : Bytes) (h : kind ∉ pngKeptChunks)
    : examine width height s kind data = .ok s := by
  have hne : ∀ kept ∈ pngKeptChunks, kind ≠ kept := fun kept hmem heq => h (heq ▸ hmem)
  unfold examine
  rw [if_neg fun hacTL => hne _ (by decide) hacTL.1, if_neg (hne _ (by decide)),
    if_neg (hne _ (by decide))]

def png (width height : ℕ) : Marked UInt8 PngChunk PngScan SanitizeError where
  start := ⟨false, none⟩
  check s c := examine width height s c.kind c.data
  clean c := if c.kind ∈ pngKeptChunks then some c else none
  clean_clean := by
    intro c c' h
    obtain ⟨hmem, hsome⟩ := Option.ite_none_right_eq_some.mp h
    cases hsome
    exact h
  check_clean := by
    intro c c' s h
    obtain ⟨-, hsome⟩ := Option.ite_none_right_eq_some.mp h
    cases hsome
    rfl
  check_dropped := by
    intro c s h
    exact examine_dropped width height s c.data fun hmem => nomatch (if_pos hmem).symm.trans h
  print := PngChunk.print
  last c := c.kind = ascii "IEND"
  print_ne_nil := PngChunk.print_ne_nil
  print_inj := PngChunk.print_inj
  last_clean := by
    intro c c' h
    obtain ⟨-, hsome⟩ := Option.ite_none_right_eq_some.mp h
    cases hsome
    rfl
  last_dropped := by
    intro c h
    refine decide_eq_false fun hkind => ?_
    have hmem : c.kind ∈ pngKeptChunks := by
      rw [hkind]
      decide
    nomatch (if_pos hmem).symm.trans h

/-! ## The walk -/

theorem examine_settled (width height : ℕ) (s : PngScan) (kind data : Bytes) :
    (∃ s', examine width height s kind data = .ok s') ∨
      ∃ e, examine width height s kind data = .err e := by
  unfold examine
  by_cases hacTL : kind = ascii "acTL" ∧ s.seenIdat = false
  · rw [if_pos hacTL]
    by_cases hlen : data.length ≠ 8
    · exact .inr ⟨_, if_pos hlen⟩
    · rw [if_neg hlen]
      obtain ⟨n, hn⟩ := exists_beU32 data 0 (by omega)
      exact .inl ⟨_, by rw [hn]; rfl⟩
  rw [if_neg hacTL]
  by_cases hIDAT : kind = ascii "IDAT"
  · exact .inl ⟨_, if_pos hIDAT⟩
  rw [if_neg hIDAT]
  by_cases hfcTL : kind = ascii "fcTL"
  · rw [if_pos hfcTL]
    by_cases hlen : data.length ≠ 26
    · exact .inr ⟨_, if_pos hlen⟩
    · rw [if_neg hlen]
      obtain ⟨frameWidth, hw⟩ := exists_beU32 data 4 (by omega)
      obtain ⟨frameHeight, hh⟩ := exists_beU32 data 8 (by omega)
      obtain ⟨x, hx⟩ := exists_beU32 data 12 (by omega)
      obtain ⟨y, hy⟩ := exists_beU32 data 16 (by omega)
      rw [hw, hh, hx, hy]
      by_cases hcan : width < x + frameWidth ∨ height < y + frameHeight
      · exact .inr ⟨_, if_pos hcan⟩
      · exact .inl ⟨_, if_neg hcan⟩
  · exact .inl ⟨_, if_neg hfcTL⟩

variable (width height : ℕ) {buf : Bytes} {fuel pos n : ℕ} {c : PngChunk}

theorem pngLoop_head (s : PngScan) (out : Bytes) (hpos : pos ≤ buf.length) (hn : n < 2 ^ 32)
    (hkn : kind.length = 4) (h : buf.drop pos = beBytes n ++ (kind ++ body)) :
    pngLoop width height buf (fuel + 1) pos s out =
      if buf.length < pos + 8 + n + 4 then .err .decode
      else (do
        let data ← slice buf (pos + 8) (pos + 8 + n)
        let s' ← examine width height s kind data
        let copied ← copyKept buf pos (pos + 8 + n + 4) kind
        if kind = ascii "IEND" then .ok (out ++ copied, s')
        else pngLoop width height buf fuel (pos + 8 + n + 4) s' (out ++ copied)) := by
  have hlen := length_ahead h hpos
  rw [length_append, length_beBytes, hkn] at hlen
  have hleng : slice buf pos (pos + 4) = .ok (beBytes n) := slice_ahead [] _ hpos h rfl rfl
  have hslic : slice buf (pos + 4) (pos + 8) = .ok kind :=
    slice_ahead (beBytes n) _ hpos h rfl (by rw [hkn])
  rw [pngLoop]
  rw [if_neg (by omega), beU32_slice hn hleng, ok_bind, hslic, ok_bind]

variable {width height} in
theorem png_last : (png width height).last c = true ↔ c.kind = ascii "IEND" := decide_eq_true_iff

theorem emit_kept (h : c.kind ∈ pngKeptChunks) : (png width height).emit c = c.print :=
  Marked.emit_of_clean (show (png width height).clean c = some c from if_pos h)

theorem copyKept_eq {chunkEnd : ℕ} (h : slice buf pos chunkEnd = .ok c.print) :
    copyKept buf pos chunkEnd c.kind = .ok ((png width height).emit c) := by
  unfold copyKept
  by_cases hkp : c.kind ∈ pngKeptChunks
  · rw [if_pos hkp, h, emit_kept width height hkp]
  · rw [if_neg hkp, Marked.emit_of_dropped (if_neg hkp)]

theorem pngLoop_chunk (fuel : ℕ) (s : PngScan) (out : Bytes) {rest : Bytes}
    (hpos : pos ≤ buf.length) (h : buf.drop pos = c.print ++ rest) :
    pngLoop width height buf (fuel + 1) pos s out =
      (examine width height s c.kind c.data).andThen fun s' =>
        if c.kind = ascii "IEND" then .ok (out ++ (png width height).emit c, s')
        else pngLoop width height buf fuel (pos + c.print.length) s'
          (out ++ (png width height).emit c) := by
  have hlen := length_ahead h hpos
  have hprin := c.length_print
  have hhd : buf.drop pos = beBytes c.data.length ++ (c.kind ++ ((c.data ++ c.crc) ++ rest)) := by
    rw [h, PngChunk.print]
    simp
  have hdt : slice buf (pos + 8) (pos + 8 + c.data.length) = .ok c.data := by
    refine slice_ahead (beBytes c.data.length ++ c.kind) (c.crc ++ rest) hpos ?_ ?_ rfl
    · rw [hhd]
      simp
    · rw [length_append, length_beBytes, c.kind_length]
  have hend : pos + 8 + c.data.length + 4 = pos + c.print.length := by omega
  have hwhol : slice buf pos (pos + c.print.length) = .ok c.print := slice_ahead [] _ hpos h rfl rfl
  rw [pngLoop_head width height s out hpos c.data_length c.kind_length hhd, if_neg (by omega), hdt, hend,
    copyKept_eq width height hwhol]
  rfl

theorem exists_chunk (hn : n < 2 ^ 32) (hkn : kind.length = 4) (h : n + 4 ≤ body.length) :
    ∃ (c : PngChunk) (rest : Bytes), beBytes n ++ (kind ++ body) = c.print ++ rest := by
  obtain ⟨front, rest, rfl, hfron⟩ := exists_cut h
  obtain ⟨data, crc, rfl, hdt⟩ := exists_cut (n := n) (by omega : n ≤ front.length)
  subst hdt
  rw [length_append] at hfron
  refine ⟨⟨kind, data, crc, hkn, hn, by omega⟩, rest, ?_⟩
  rw [PngChunk.print]
  simp

theorem pngLoop_refuses (s : PngScan) (out : Bytes) (hpos : pos ≤ buf.length)
    (h : ¬ ∃ (c : PngChunk) (rest : Bytes), buf.drop pos = c.print ++ rest) :
    pngLoop width height buf (fuel + 1) pos s out = .err .decode := by
  by_cases h8 : buf.length < pos + 8
  · exact if_pos h8
  have hahe : 8 ≤ (buf.drop pos).length := by
    rw [length_drop]
    omega
  obtain ⟨head, body, hspl, hhd⟩ := exists_cut hahe
  obtain ⟨length, kind, rfl, hleng⟩ := exists_cut (n := 4) (by omega : 4 ≤ head.length)
  obtain ⟨n, hn, rfl⟩ := exists_beBytes hleng
  rw [length_append, hleng] at hhd
  rw [append_assoc] at hspl
  have hkn : kind.length = 4 := by omega
  have hlen := length_ahead hspl hpos
  rw [length_beBytes, length_append, hkn] at hlen
  rw [pngLoop_head width height s out hpos hn hkn hspl]
  refine if_pos ?_
  by_contra hend
  obtain ⟨c, rest, hc⟩ := exists_chunk hn hkn (by omega : n + 4 ≤ body.length)
  exact h ⟨c, rest, hspl.trans hc⟩

/-- **Every turn of the loop reads a chunk.** -/
theorem pngLoop_walks : (png width height).Walks buf (pngLoop width height buf) := by
  intro fuel pos s out hpos
  by_cases h : ∃ (c : PngChunk) (rest : Bytes), buf.drop pos = c.print ++ rest
  · obtain ⟨c, rest, hrd⟩ := h
    have htr := pngLoop_chunk width height fuel s out hpos hrd
    obtain ⟨s', hs'⟩ | ⟨e, he⟩ := examine_settled width height s c.kind c.data
    · rw [hs'] at htr
      refine .read c rest s' hrd hs' (htr.trans ?_)
      by_cases hls : (png width height).last c = true
      · rw [if_pos hls]
        exact if_pos (png_last.mp hls)
      · rw [if_neg hls]
        exact if_neg fun hkn => hls (png_last.mpr hkn)
    · rw [he] at htr
      refine .refused e htr fun c' rest' s' h hchk => ?_
      obtain ⟨rfl, -⟩ := PngChunk.print_inj (h.symm.trans hrd)
      exact nomatch he.symm.trans hchk
  · refine .refused _ (pngLoop_refuses width height s out hpos h) fun c rest s' hrd _ => ?_
    exact h ⟨c, rest, hrd⟩

/-- **Cleaning a PNG is parsing it, dropping chunks and writing the others again.** -/
theorem walkPng_performs (width height : ℕ) :
    Performs ((png width height).container (· = pngSignature)) (fun s => s.frames.any (1 < ·))
      fun buf => (walkPng buf width height).onOk fun walk => (walk.bytes, walk.animated) := by
  refine Marked.performs (pngLoop width height) (fun _ => pngLoop_walks width height) ?_ fun buf => ?_
  · rintro d d' rest rest' rfl rfl -
    rfl
  · unfold walkPng
    by_cases h : buf.length < pngSignature.length ∨ buf.take pngSignature.length ≠ pngSignature
    · refine .inl ⟨.decode, by rw [if_pos h, Outcome.onOk_err], ?_⟩
      rintro d rest rfl rfl
      rw [List.take_left, length_append] at h
      obtain h | h := h
      · omega
      · exact h rfl
    · obtain ⟨-, htk⟩ := not_or.mp h
      refine .inr ⟨pngSignature, buf.drop pngSignature.length, rfl, ?_, ?_⟩
      · conv_lhs => rw [← List.take_append_drop pngSignature.length buf, not_not.mp htk]
      · rw [if_neg h, Outcome.onOk_onOk]
        rfl

/-- A text chunk and what follows the end marker are dropped. -/
example : walkPng (pngSignature ++ [0, 0, 0, 1] ++ ascii "tEXt" ++ [9, 1, 2, 3, 4] ++
    [0, 0, 0, 0] ++ ascii "IEND" ++ [1, 2, 3, 4, 7]) 1 1 =
      .ok ⟨pngSignature ++ [0, 0, 0, 0] ++ ascii "IEND" ++ [1, 2, 3, 4], false⟩ := by
  decide

end SlogaBackend.Files
