import SlogaBackend.Files.Gif
import SlogaBackend.Files.Png
import SlogaBackend.Files.Webp

/-!
# Image cleaning is parse, filter, write again

The three walkers of the sanitizer, each put against its own cleaner. `PngCleaned`, `GifCleaned`
and `WebpCleaned` spell out for one file and one result what the cleaning of it is: the file begins
with these blocks, the result is the header and what is kept of them, and every file with the same
header and the same kept blocks has that very result, whatever else it holds between them, in them
or behind the end marker.
-/

namespace SlogaBackend.Files

open Cleaning

/-- A PNG and its cleaning: the chunks up to the first `IEND`, and of them the kept ones. -/
def PngCleaned (width height : ℕ) (buf : Bytes) (walk : PngWalk) : Prop :=
  ∃ (cs : List PngChunk) (rest : Bytes), Closed (fun c => c.kind = ascii "IEND") cs ∧
    buf = pngSignature ++ cs.flatMap PngChunk.print ++ rest ∧
    walk.bytes =
      pngSignature ++ (cs.filter fun c => c.kind ∈ pngKeptChunks).flatMap PngChunk.print ∧
    ∀ (cs' : List PngChunk) (rest' : Bytes), Closed (fun c => c.kind = ascii "IEND") cs' →
      (cs'.filter fun c => c.kind ∈ pngKeptChunks) = (cs.filter fun c => c.kind ∈ pngKeptChunks) →
      walkPng (pngSignature ++ cs'.flatMap PngChunk.print ++ rest') width height = .ok walk

/-- A GIF and its cleaning: the blocks up to the trailer, and what is kept of each. -/
def GifCleaned (limits : ImageLimits) (buf out : Bytes) (frames : ℕ) : Prop :=
  ∃ (header : Bytes) (bs : List GifBlock) (rest : Bytes),
    GifHeader header ∧ Closed GifBlock.isTrailer bs ∧
    buf = header ++ bs.flatMap GifBlock.print ++ rest ∧
    out = header ++ (bs.filterMap GifBlock.clean).flatMap GifBlock.print ∧
    ∀ (bs' : List GifBlock) (rest' : Bytes), Closed GifBlock.isTrailer bs' →
      bs'.filterMap GifBlock.clean = bs.filterMap GifBlock.clean →
      walkGif (header ++ bs'.flatMap GifBlock.print ++ rest') limits = .ok (out, frames)

/-- A WebP and its cleaning: the chunks the RIFF size covers, what is kept of each, and the size of
the result in its place. -/
def WebpCleaned (width height : ℕ) (buf out : Bytes) (animated : Bool) : Prop :=
  ∃ bs : List WebpBlock, HoldsWebp buf bs ∧ out = writeWebp (bs.filterMap WebpBlock.clean) ∧
    (slice out 4 8).andThen leU32 = .ok (out.length - 8) ∧
    ∀ (buf' : Bytes) (bs' : List WebpBlock), HoldsWebp buf' bs' →
      bs'.filterMap WebpBlock.clean = bs.filterMap WebpBlock.clean →
      walkWebp buf' width height = .ok (out, animated)

theorem png_cleaned (width height : ℕ) (cs : List PngChunk) :
    (png width height).cleaned cs = cs.filter fun c => c.kind ∈ pngKeptChunks := by
  induction cs with
  | nil => rfl
  | cons c cs ih =>
    by_cases hkp : c.kind ∈ pngKeptChunks
    · have hcle : (png width height).clean c = some c := if_pos hkp
      rw [Cleaner.cleaned_cons_some hcle, List.filter_cons, if_pos (decide_eq_true hkp), ih]
    · have hcle : (png width height).clean c = none := if_neg hkp
      rw [Cleaner.cleaned_cons_none hcle, List.filter_cons,
        if_neg fun h => hkp (of_decide_eq_true h), ih]

theorem walkPng_pair {buf : Bytes} {width height : ℕ} {walk : PngWalk} :
    (walkPng buf width height).onOk (fun walk => (walk.bytes, walk.animated)) =
      .ok (walk.bytes, walk.animated) ↔ walkPng buf width height = .ok walk := by
  rw [Outcome.onOk_eq_ok]
  constructor
  · rintro ⟨walk', hwl', heq⟩
    cases walk
    cases heq
    exact hwl'
  · intro hwl
    exact ⟨walk, hwl, rfl⟩

theorem walkPng_cleans (buf : Bytes) (width height : ℕ) : (walkPng buf width height).Settled ∧
    ∀ walk, walkPng buf width height = .ok walk →
      PngCleaned width height buf walk ∧ walkPng walk.bytes width height = .ok walk := by
  have hper := walkPng_performs width height
  constructor
  · exact Outcome.settled_onOk.mp (hper.settled buf)
  intro walk hwl
  have hpr := walkPng_pair.mpr hwl
  refine ⟨?_, walkPng_pair.mp (hper.again hpr)⟩
  obtain ⟨d, cs, ⟨rfl, hcl, rest, hbuf⟩, hout, -, hsm⟩ := hper.of_kept hpr
  rw [png_cleaned] at hout hsm
  refine ⟨cs, rest, hcl, hbuf, hout, fun cs' rest' hcl' hkp => ?_⟩
  refine walkPng_pair.mp (hsm _ cs' ⟨rfl, hcl', rest', rfl⟩ ?_)
  rw [png_cleaned, hkp]

theorem walkGif_cleans (buf : Bytes) (limits : ImageLimits) : (walkGif buf limits).Settled ∧
    ∀ out frames, walkGif buf limits = .ok (out, frames) →
      GifCleaned limits buf out frames ∧ walkGif out limits = .ok (out, frames) := by
  have hper := walkGif_performs limits
  refine ⟨hper.settled buf, fun out frames hwl => ⟨?_, hper.again hwl⟩⟩
  obtain ⟨header, bs, ⟨hhead, hcl, rest, hbuf⟩, hout, -, hsm⟩ := hper.of_kept hwl
  refine ⟨header, bs, rest, hhead, hcl, hbuf, hout, fun bs' rest' hcl' hkp => ?_⟩
  exact hsm _ bs' ⟨hhead, hcl', rest', rfl⟩ hkp

theorem walkWebp_cleans (buf : Bytes) (width height : ℕ) : (walkWebp buf width height).Settled ∧
    ∀ out animated, walkWebp buf width height = .ok (out, animated) →
      WebpCleaned width height buf out animated ∧
        walkWebp out width height = .ok (out, animated) := by
  have hper := walkWebp_performs width height
  refine ⟨hper.settled buf, fun out animated hwl => ⟨?_, hper.again hwl⟩⟩
  obtain ⟨_, bs, hhld, rfl, hft, hsm⟩ := hper.of_kept hwl
  exact ⟨bs, hhld, rfl, size_writeWebp hft, hsm⟩

/-- **Image cleaning is parse, filter, re-encode.** On every file the walkers come to an end
without reading out of bounds. What one returns is the header and the kept blocks of the file,
nothing else in the file has any influence on it, and walking it again returns it unchanged. -/
theorem image_cleaning : (∀ (buf : Bytes) (width height : ℕ), (walkPng buf width height).Settled ∧
      ∀ walk, walkPng buf width height = .ok walk →
        PngCleaned width height buf walk ∧ walkPng walk.bytes width height = .ok walk) ∧
    (∀ (buf : Bytes) (limits : ImageLimits), (walkGif buf limits).Settled ∧
      ∀ out frames, walkGif buf limits = .ok (out, frames) →
        GifCleaned limits buf out frames ∧ walkGif out limits = .ok (out, frames)) ∧
    ∀ (buf : Bytes) (width height : ℕ), (walkWebp buf width height).Settled ∧
      ∀ out animated, walkWebp buf width height = .ok (out, animated) →
        WebpCleaned width height buf out animated ∧
          walkWebp out width height = .ok (out, animated) :=
  ⟨walkPng_cleans, walkGif_cleans, walkWebp_cleans⟩

end SlogaBackend.Files
