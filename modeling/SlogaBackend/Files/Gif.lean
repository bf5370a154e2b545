import SlogaBackend.Files.Bytes

/-!
# Cleaning a GIF

`walkGif` steps over the blocks of a GIF. An image is copied whole; of an extension only graphic
control and the loop count are kept, rebuilt from their fixed fields. The data of a block is a run
of sub-blocks, each with its length before it and an empty one at the end, and `skipSubBlocks` is
the loop over such a run: `skipSubBlocks_run` and `exists_run` say that it finds the run if there is
one. `gif` is the cleaner, and `walkGif_performs` says that the walk is the cleaning.
-/

namespace SlogaBackend.Files

open Cleaning

/-- GIF application extensions that hold the loop count, and are kept. -/
def gifLoopExtensions : List Bytes := ["NETSCAPE2.0", "ANIMEXTS1.0"].map ascii

/-- Size of the color table that a GIF packed-fields byte announces. -/
def colorTableLen (packed : UInt8) : ℕ :=
  if packed &&& 0x80 ≠ 0 then 3 <<< ((packed &&& 0x07) + 1).toNat else 0

/-- Step over a run of GIF data sub-blocks, returning the offset after the terminator. -/
def skipSubBlocks (buf : Bytes) : ℕ → ℕ → Reading ℕ
  | 0, _ => .spin
  | fuel + 1, pos => do
    let size ← orDecode buf[pos]?
    if size = 0 then .ok (pos + 1)
    else if buf.length < pos + 1 + size.toNat then .err .decode
    else skipSubBlocks buf fuel (pos + 1 + size.toNat)

/-- A loop count behind an identifier: the sub-block is three bytes, id 1 and then the count. -/
def keepLoop (buf identifier : Bytes) (data : ℕ) : Reading Bytes :=
  if identifier ∈ gifLoopExtensions then do
    let size ← index buf data
    if size = 3 then do
      let id ← index buf (data + 1)
      if id = 1 then do
        let count ← slice buf data (data + 4)
        .ok ([0x21, 0xff, 11] ++ identifier ++ count ++ [0])
      else .ok []
    else .ok []
  else .ok []

/-- The `match label` of an extension: what is written for it. -/
def keepExtension (buf : Bytes) (label : UInt8) (body : ℕ) : Reading Bytes :=
  if label = 0xf9 then do
    let size ← index buf body
    if size ≠ 4 then .err .decode
    else do
      let fields ← slice buf (body + 1) (body + 5)
      .ok ([0x21, 0xf9, 4] ++ fields ++ [0])
  else if label = 0xff then do
    let size ← index buf body
    if size = 11 then do
      let identifier ← slice buf (body + 1) (body + 12)
      keepLoop buf identifier (body + 12)
    else .ok []
  else .ok []

/-- The loop of `walk_gif`, one block a turn. -/
def gifLoop (limits : ImageLimits) (buf : Bytes) : ℕ → ℕ → ℕ → Bytes → Reading (Bytes × ℕ)
  | 0, _, _, _ => .spin
  | fuel + 1, pos, frames, out => do
    let tag ← orDecode buf[pos]?
    if tag = 0x3b then .ok (out ++ [0x3b], frames)
    else if tag = 0x2c then do
      let descriptor ← orDecode (getRange buf pos (pos + 10))
      let frameWidth := leU16 (← index descriptor 5) (← index descriptor 6)
      let frameHeight := leU16 (← index descriptor 7) (← index descriptor 8)
      checkDimensions frameWidth frameHeight limits
      let dataStart := pos + 10 + colorTableLen (← index descriptor 9) + 1
      let end_ ← skipSubBlocks buf (buf.length + 1) dataStart
      let image ← slice buf pos end_
      gifLoop limits buf fuel end_ (frames + 1) (out ++ image)
    else if tag = 0x21 then do
      let label ← orDecode buf[pos + 1]?
      let body := pos + 2
      let end_ ← skipSubBlocks buf (buf.length + 1) body
      let kept ← keepExtension buf label body
      gifLoop limits buf fuel end_ frames (out ++ kept)
    else .err .decode

/-- Walk a GIF's blocks, dropping everything that is not image data, returning the cleaned file
and how many frames it has. -/
def walkGif (buf : Bytes) (limits : ImageLimits) : Reading (Bytes × ℕ) :=
  if buf.length < 13 then .err .decode
  else do
    let pos := 13 + colorTableLen (← index buf 10)
    if buf.length < pos then .err .decode
    else do
      let header ← slice buf 0 pos
      gifLoop limits buf (buf.length + 1) pos 0 header

/-! ## Runs of sub-blocks -/

/-- The bytes of a run: each sub-block behind its length, and an empty one. -/
def printRun : List Bytes → Bytes
  | [] => [0]
  | b :: bs => UInt8.ofNat b.length :: (b ++ printRun bs)

/-- A run of data sub-blocks, each of a length that fits a byte and is not that of the end. -/
@[ext] structure SubBlocks where
  blocks : List Bytes
  sizes : ∀ b ∈ blocks, 0 < b.length ∧ b.length < 2 ^ 8

variable {b buf rest : Bytes}

theorem toNat_size (h : b.length < 2 ^ 8) : (UInt8.ofNat b.length).toNat = b.length := by
  rw [UInt8.toNat_ofNat', Nat.mod_eq_of_lt h]

theorem size_ne_zero (h : 0 < b.length ∧ b.length < 2 ^ 8) : UInt8.ofNat b.length ≠ 0 := by
  intro hzr
  have hnat := congrArg UInt8.toNat hzr
  rw [toNat_size h.2] at hnat
  exact absurd hnat (Nat.ne_of_gt h.1)

theorem exists_printRun_eq_cons (bs : List Bytes) : ∃ size tail, printRun bs = size :: tail := by
  cases bs with
  | nil => exact ⟨0, [], rfl⟩
  | cons b bs => exact ⟨_, _, rfl⟩

theorem printRun_inj : ∀ {bs bs' : List Bytes} {rest rest' : Bytes},
    (∀ b ∈ bs, 0 < b.length ∧ b.length < 2 ^ 8) → (∀ b ∈ bs', 0 < b.length ∧ b.length < 2 ^ 8) →
    printRun bs ++ rest = printRun bs' ++ rest' → bs = bs' ∧ rest = rest'
  | [], [], _, _, _, _, h => ⟨rfl, (List.cons.inj h).2⟩
  | [], b :: _, _, _, _, hsiz, h =>
    absurd (List.cons.inj h).1.symm (size_ne_zero (hsiz b mem_cons_self))
  | b :: _, [], _, _, hsiz, _, h =>
    absurd (List.cons.inj h).1 (size_ne_zero (hsiz b mem_cons_self))
  | b :: bs, b' :: bs', rest, rest', hsiz, hsiz', h => by
    rw [printRun, printRun, cons_append, cons_append] at h
    obtain ⟨hsz, htl⟩ := List.cons.inj h
    have hlen : b.length = b'.length := by
      have hnat := congrArg UInt8.toNat hsz
      rwa [toNat_size (hsiz b mem_cons_self).2,
        toNat_size (hsiz' b' mem_cons_self).2] at hnat
    rw [append_assoc, append_assoc] at htl
    obtain ⟨rfl, hrun⟩ := append_inj htl hlen
    obtain ⟨rfl, hrs⟩ := printRun_inj (fun x hx => hsiz x (mem_cons_of_mem _ hx))
      (fun x hx => hsiz' x (mem_cons_of_mem _ hx)) hrun
    exact ⟨rfl, hrs⟩

theorem orDecode_ahead {post : Bytes} {pos : ℕ} {byte : UInt8} (h : buf.drop pos = byte :: post) :
    orDecode buf[pos]? = .ok byte := by
  rw [getElem?_ahead [] h (show pos = pos + 0 from rfl)]
  rfl

theorem skipSubBlocks_cons {fuel pos : ℕ} {size : UInt8} (h : buf.drop pos = size :: rest) :
    skipSubBlocks buf (fuel + 1) pos = if size = 0 then .ok (pos + 1)
      else if buf.length < pos + 1 + size.toNat then .err .decode
      else skipSubBlocks buf fuel (pos + 1 + size.toNat) := by
  rw [skipSubBlocks, orDecode_ahead h]
  rfl

/-- What is ahead of a run, behind its first sub-block. -/
theorem drop_run {bs : List Bytes} {pos : ℕ} (h : buf.drop pos = printRun (b :: bs) ++ rest) :
    buf.drop (pos + 1 + b.length) = printRun bs ++ rest := by
  rw [Nat.add_assoc, ← drop_drop, h, printRun, cons_append, append_assoc,
    Nat.add_comm, List.drop_succ_cons, drop_left]

/-- **A run is stepped over.** -/
theorem skipSubBlocks_run : ∀ {bs : List Bytes} {fuel pos : ℕ} {rest : Bytes},
    (∀ b ∈ bs, 0 < b.length ∧ b.length < 2 ^ 8) → pos ≤ buf.length → buf.length < pos + fuel →
    buf.drop pos = printRun bs ++ rest →
    skipSubBlocks buf fuel pos = .ok (pos + (printRun bs).length)
  | _, 0, _, _, _, hpos, hfl, _ => absurd hfl (by omega)
  | [], fuel + 1, pos, rest, _, _, _, h => by
    rw [skipSubBlocks_cons h, if_pos rfl]
    rfl
  | b :: bs, fuel + 1, pos, rest, hsiz, hpos, hfl, h => by
    have hsz := hsiz b mem_cons_self
    have hlen := length_ahead h hpos
    rw [printRun, length_cons, length_append] at hlen
    have ih := skipSubBlocks_run (fun x hx => hsiz x (mem_cons_of_mem _ hx))
      (by omega : pos + 1 + b.length ≤ buf.length) (by omega : _ < _ + fuel) (drop_run h)
    rw [skipSubBlocks_cons h, if_neg (size_ne_zero hsz), toNat_size hsz.2,
      if_neg (by omega), ih, printRun, length_cons, length_append]
    congr 1
    omega

/-- **What is stepped over is a run.** -/
theorem exists_run (buf : Bytes) : ∀ (fuel pos : ℕ), buf.length < pos + fuel → 0 < fuel →
    skipSubBlocks buf fuel pos = .err .decode ∨
      ∃ (run : SubBlocks) (rest : Bytes), buf.drop pos = printRun run.blocks ++ rest
  | 0, _, _, h => absurd h (by omega)
  | fuel + 1, pos, hfl, _ => by
    cases hdr : buf.drop pos with
    | nil =>
      have hnon : buf[pos]? = none := List.getElem?_eq_none (List.drop_eq_nil_iff.mp hdr)
      exact .inl (by rw [skipSubBlocks, hnon]; rfl)
    | cons size tail =>
      have hlen := congrArg List.length hdr
      rw [length_drop, length_cons] at hlen
      rw [skipSubBlocks_cons hdr]
      by_cases hzr : size = 0
      · exact .inr ⟨⟨[], by simp⟩, tail, by rw [hzr]; rfl⟩
      rw [if_neg hzr]
      by_cases hend : buf.length < pos + 1 + size.toNat
      · exact .inl (if_pos hend)
      rw [if_neg hend]
      obtain herr | ⟨run, rest, hrun⟩ := exists_run buf fuel (pos + 1 + size.toNat) (by omega)
        (by omega)
      · exact .inl herr
      obtain ⟨b, more, rfl, hb⟩ := exists_cut (n := size.toNat) (by omega : _ ≤ tail.length)
      have hposi : 0 < size.toNat := Nat.pos_of_ne_zero fun h => hzr (UInt8.toNat_inj.mp h)
      have hmr : more = printRun run.blocks ++ rest := by
        rw [← hrun, Nat.add_assoc, ← drop_drop, hdr, Nat.add_comm, List.drop_succ_cons, ← hb,
          drop_left]
      refine .inr ⟨⟨b :: run.blocks, ?_⟩, rest, ?_⟩
      · intro x hx
        obtain rfl | hx := List.mem_cons.mp hx
        · exact ⟨by omega, by rw [hb]; exact size.toNat_lt⟩
        · exact run.sizes x hx
      · change size :: (b ++ more) = UInt8.ofNat b.length :: (b ++ printRun run.blocks) ++ rest
        rw [hb, UInt8.ofNat_toNat, hmr, cons_append, append_assoc]

/-! ## The blocks -/

namespace SubBlocks

/-- The first sub-blocks of a run. -/
def truncate (n : ℕ) (run : SubBlocks) : SubBlocks :=
  ⟨run.blocks.take n, fun b hb => run.sizes b (List.mem_of_mem_take hb)⟩

theorem truncate_truncate (n : ℕ) (run : SubBlocks) :
    (run.truncate n).truncate n = run.truncate n := by
  refine SubBlocks.ext ?_
  change (run.blocks.take n).take n = run.blocks.take n
  rw [List.take_take, Nat.min_self]

/-- The byte a run starts with. -/
def size (run : SubBlocks) : Option UInt8 := (printRun run.blocks).head?

theorem size_truncate (n : ℕ) (run : SubBlocks) : (run.truncate (n + 1)).size = run.size := by
  cases run with
  | mk blocks sizes => cases blocks <;> rfl

/-- The loop count: a known identifier, then id 1 and the count. -/
def isLoop (run : SubBlocks) : Bool :=
  match run.blocks with
  | identifier :: data :: _ =>
    identifier ∈ gifLoopExtensions && data.length == 3 && data.head? == some 1
  | _ => false

theorem isLoop_iff {run : SubBlocks} : run.isLoop = true ↔ ∃ identifier data more,
    run.blocks = identifier :: data :: more ∧ identifier ∈ gifLoopExtensions ∧ data.length = 3 ∧
      data.head? = some 1 := by
  unfold isLoop
  split
  · rename_i heq
    rw [heq, Bool.and_eq_true, Bool.and_eq_true, decide_eq_true_eq, beq_iff_eq, beq_iff_eq]
    constructor
    · rintro ⟨⟨hid, hlen⟩, hhd⟩
      exact ⟨_, _, _, rfl, hid, hlen, hhd⟩
    · rintro ⟨_, _, _, hbloc, hid, hlen, hhd⟩
      cases hbloc
      exact ⟨⟨hid, hlen⟩, hhd⟩
  · rename_i hnot
    refine iff_of_false Bool.false_ne_true ?_
    rintro ⟨identifier, data, more, heq, -⟩
    exact hnot _ _ _ heq

theorem isLoop_truncate (run : SubBlocks) : (run.truncate 2).isLoop = run.isLoop := by
  obtain ⟨blocks, sizes⟩ := run
  match blocks, sizes with
  | [], _ => rfl
  | [_], _ => rfl
  | _ :: _ :: _, _ => rfl

end SubBlocks

/-- An image: its place on the screen, its size, the packed fields, the local color table these
announce, the LZW minimum code size and the data. -/
@[ext] structure GifImage where
  place : Bytes
  w0 : UInt8
  w1 : UInt8
  h0 : UInt8
  h1 : UInt8
  packed : UInt8
  table : Bytes
  codeSize : UInt8
  data : SubBlocks
  place_length : place.length = 4
  table_length : table.length = colorTableLen packed

inductive GifBlock where
  | image (i : GifImage)
  | extension (label : UInt8) (data : SubBlocks)
  | trailer

namespace GifBlock

/-- The bytes of a block. -/
def print : GifBlock → Bytes
  | image i => 0x2c :: (i.place ++ ([i.w0, i.w1, i.h0, i.h1, i.packed] ++
      (i.table ++ i.codeSize :: printRun i.data.blocks)))
  | extension label data => 0x21 :: label :: printRun data.blocks
  | trailer => [0x3b]

theorem print_ne_nil (b : GifBlock) : b.print ≠ [] := by
  cases b <;> exact List.cons_ne_nil _ _

theorem image_inj {i i' : GifImage} {rest rest' : Bytes}
    (h : (image i).print ++ rest = (image i').print ++ rest') : i = i' ∧ rest = rest' := by
  simp only [print, cons_append, append_assoc] at h
  obtain ⟨-, h⟩ := List.cons.inj h
  obtain ⟨hplac, h⟩ := append_inj h (i.place_length.trans i'.place_length.symm)
  simp only [List.cons.injEq, List.nil_append] at h
  obtain ⟨hw0, hw1, hh0, hh1, hpac, h⟩ := h
  have htab : i.table.length = i'.table.length := by rw [i.table_length, i'.table_length, hpac]
  obtain ⟨htab, h⟩ := append_inj h htab
  obtain ⟨hcd, h⟩ := List.cons.inj h
  obtain ⟨hdt, hrs⟩ := printRun_inj i.data.sizes i'.data.sizes h
  exact ⟨GifImage.ext hplac hw0 hw1 hh0 hh1 hpac htab hcd (SubBlocks.ext hdt), hrs⟩

theorem print_inj : ∀ {b b' : GifBlock} {rest rest' : Bytes},
    b.print ++ rest = b'.print ++ rest' → b = b' ∧ rest = rest'
  | image i, image i', _, _, h => by
    obtain ⟨rfl, hrs⟩ := image_inj h
    exact ⟨rfl, hrs⟩
  | extension label data, extension label' data', _, _, h => by
    simp only [print, cons_append, List.cons.injEq, true_and] at h
    obtain ⟨rfl, h⟩ := h
    obtain ⟨hdt, hrs⟩ := printRun_inj data.sizes data'.sizes h
    exact ⟨by rw [SubBlocks.ext hdt], hrs⟩
  | trailer, trailer, _, _, h => ⟨rfl, (List.cons.inj h).2⟩
  | image _, extension _ _, _, _, h => absurd (List.cons.inj h).1 (by decide)
  | image _, trailer, _, _, h => absurd (List.cons.inj h).1 (by decide)
  | extension _ _, image _, _, _, h => absurd (List.cons.inj h).1 (by decide)
  | extension _ _, trailer, _, _, h => absurd (List.cons.inj h).1 (by decide)
  | trailer, image _, _, _, h => absurd (List.cons.inj h).1 (by decide)
  | trailer, extension _ _, _, _, h => absurd (List.cons.inj h).1 (by decide)

/-- The end marker. -/
def isTrailer : GifBlock → Bool
  | trailer => true
  | _ => false

/-- The checks of a block, counting the images. -/
def check (limits : ImageLimits) (frames : ℕ) : GifBlock → Reading ℕ
  | image i => (checkDimensions (leU16 i.w0 i.w1) (leU16 i.h0 i.h1) limits).andThen fun _ =>
      .ok (frames + 1)
  | extension label data => if label = 0xf9 ∧ data.size ≠ some 4 then .err .decode else .ok frames
  | trailer => .ok frames

/-- What is kept of a block: images, the first sub-block of a graphic control, the two of a loop
count. -/
def clean : GifBlock → Option GifBlock
  | image i => some (image i)
  | extension label data =>
    if label = 0xf9 then some (extension label (data.truncate 1))
    else if label = 0xff ∧ data.isLoop = true then some (extension label (data.truncate 2))
    else none
  | trailer => some trailer

theorem clean_control (data : SubBlocks) :
    clean (extension 0xf9 data) = some (extension 0xf9 (data.truncate 1)) := rfl

theorem clean_application (data : SubBlocks) : clean (extension 0xff data) =
    if data.isLoop = true then some (extension 0xff (data.truncate 2)) else none := by
  have hne : (0xff : UInt8) ≠ 0xf9 := by decide
  rw [clean, if_neg hne]
  simp

variable {label : UInt8}

theorem clean_other (data : SubBlocks) (h9 : label ≠ 0xf9) (hf : label ≠ 0xff) :
    clean (extension label data) = none := by
  rw [clean, if_neg h9, if_neg fun h => hf h.1]

theorem check_other (limits : ImageLimits) (frames : ℕ) (data : SubBlocks) (h9 : label ≠ 0xf9)
    : check limits frames (extension label data) = .ok frames :=
  if_neg fun h => h9 h.1

theorem clean_cases {b b' : GifBlock} (h : clean b = some b') :
    b' = b ∨ (∃ data, b = extension 0xf9 data ∧ b' = extension 0xf9 (data.truncate 1)) ∨
      ∃ data, data.isLoop = true ∧ b = extension 0xff data ∧
        b' = extension 0xff (data.truncate 2) := by
  cases b with
  | extension label data =>
    by_cases h9 : label = 0xf9
    · subst h9
      exact .inr (.inl ⟨data, rfl, (Option.some.inj (clean_control data ▸ h)).symm⟩)
    by_cases hf : label = 0xff
    · subst hf
      rw [clean_application] at h
      obtain ⟨hlp, hsm⟩ := Option.ite_none_right_eq_some.mp h
      exact .inr (.inr ⟨data, hlp, rfl, (Option.some.inj hsm).symm⟩)
    · rw [clean_other data h9 hf] at h
      nomatch h
  | _ => exact .inl (Option.some.inj h).symm

end GifBlock

def gif (limits : ImageLimits) : Marked UInt8 GifBlock ℕ SanitizeError where
  start := 0
  check := GifBlock.check limits
  clean := GifBlock.clean
  clean_clean := by
    intro b b' h
    obtain rfl | ⟨data, rfl, rfl⟩ | ⟨data, hloop, rfl, rfl⟩ := GifBlock.clean_cases h
    · exact h
    · rw [GifBlock.clean_control, SubBlocks.truncate_truncate]
    · rw [GifBlock.clean_application, SubBlocks.isLoop_truncate, if_pos hloop,
        SubBlocks.truncate_truncate]
  check_clean := by
    intro b b' s h
    obtain rfl | ⟨data, rfl, rfl⟩ | ⟨data, hloop, rfl, rfl⟩ := GifBlock.clean_cases h
    · rfl
    · unfold GifBlock.check
      dsimp only
      rw [SubBlocks.size_truncate]
    · rw [GifBlock.check_other _ _ _ (by decide), GifBlock.check_other _ _ _ (by decide)]
  check_dropped := by
    intro b s h
    cases b with
    | extension label data =>
      refine GifBlock.check_other _ _ _ ?_
      rintro rfl
      rw [GifBlock.clean_control] at h
      nomatch h
    | _ => nomatch h
  print := GifBlock.print
  last := GifBlock.isTrailer
  print_ne_nil := GifBlock.print_ne_nil
  print_inj := GifBlock.print_inj
  last_clean := by
    intro b b' h
    obtain rfl | ⟨data, rfl, rfl⟩ | ⟨data, -, rfl, rfl⟩ := GifBlock.clean_cases h <;> rfl
  last_dropped := by
    intro b h
    cases b with
    | trailer => nomatch h
    | _ => rfl

/-! ## The walk -/

section Walk

variable (limits : ImageLimits) {buf rest : Bytes} {b : Bytes} {pos : ℕ} {bs : List Bytes}
  {data : SubBlocks}

theorem size_eq_iff (h : b.length < 2 ^ 8) (k : UInt8) :
    UInt8.ofNat b.length = k ↔ b.length = k.toNat := by
  rw [← UInt8.toNat_inj, toNat_size h]

theorem index_run (h : buf.drop pos = printRun (b :: bs) ++ rest) :
    index buf pos = .ok (UInt8.ofNat b.length) := index_ahead [] h rfl

theorem index_run_nil (h : buf.drop pos = printRun [] ++ rest) :
    index buf pos = .ok 0 := index_ahead [] h rfl

theorem slice_run (hpos : pos ≤ buf.length) (h : buf.drop pos = printRun (b :: bs) ++ rest) {a : ℕ}
    (ha : a = pos + 1 + b.length) : slice buf (pos + 1) a = .ok b := by
  refine slice_ahead [UInt8.ofNat b.length] (printRun bs ++ rest) hpos ?_ rfl ha
  rw [h, printRun, cons_append, append_assoc]
  rfl

theorem emit_dropped {b : GifBlock} (h : b.clean = none) : (gif limits).emit b = [] :=
  Marked.emit_of_dropped (show (gif limits).clean b = none from h)

theorem emit_extension {label : UInt8} {data' : SubBlocks}
    (h : GifBlock.clean (.extension label data) = some (.extension label data')) :
    (gif limits).emit (.extension label data) = 0x21 :: label :: printRun data'.blocks :=
  Marked.emit_of_clean (show (gif limits).clean (.extension label data) = _ from h)

variable {body : ℕ}

theorem keepExtension_control (frames : ℕ) (hbd : body ≤ buf.length)
    (h : buf.drop body = printRun data.blocks ++ rest) :
    keepExtension buf 0xf9 body = (GifBlock.check limits frames (.extension 0xf9 data)).andThen
      fun _ => .ok ((gif limits).emit (.extension 0xf9 data)) := by
  rw [emit_extension limits (GifBlock.clean_control data), GifBlock.check, keepExtension, if_pos rfl]
  obtain ⟨blocks, sizes⟩ := data
  cases blocks with
  | nil =>
    have hsz : (0 : UInt8) ≠ 4 := by decide
    rw [index_run_nil h, ok_bind, if_pos hsz, if_pos ⟨rfl, nofun⟩]
    rfl
  | cons b bs =>
    have hb := (sizes b mem_cons_self).2
    rw [index_run h, ok_bind]
    by_cases hfr : b.length = 4
    · have hsz : UInt8.ofNat b.length = 4 := (size_eq_iff hb 4).mpr hfr
      have hsm : SubBlocks.size ⟨b :: bs, sizes⟩ = some 4 := congrArg some hsz
      rw [if_neg (not_not.mpr hsz), slice_run hbd h (by omega), ok_bind,
        if_neg fun hno => hno.2 hsm]
      change Outcome.ok ([0x21, 0xf9, 4] ++ b ++ [0]) =
        Outcome.ok (0x21 :: 0xf9 :: UInt8.ofNat b.length :: (b ++ [0]))
      rw [hsz]
      rfl
    · have hsz : UInt8.ofNat b.length ≠ 4 := fun heq => hfr ((size_eq_iff hb 4).mp heq)
      rw [if_pos hsz, if_pos ⟨rfl, fun heq => hsz (Option.some.inj heq)⟩]
      rfl

theorem length_of_mem_gifLoopExtensions (h : b ∈ gifLoopExtensions) : b.length = 11 := by
  have hall : ∀ known ∈ gifLoopExtensions, known.length = 11 := by decide
  exact hall b h

theorem emit_not_loop (h : data.isLoop ≠ true) : (gif limits).emit (.extension 0xff data) = [] := by
  refine emit_dropped limits ?_
  rw [GifBlock.clean_application, if_neg h]

theorem keepLoop_eq (sizes : ∀ x ∈ b :: bs, 0 < x.length ∧ x.length < 2 ^ 8)
    (hele : b.length = 11) (hpos : pos ≤ buf.length) (h : buf.drop pos = printRun bs ++ rest) :
    keepLoop buf b pos = .ok ((gif limits).emit (.extension 0xff ⟨b :: bs, sizes⟩)) := by
  unfold keepLoop
  by_cases hkn : b ∈ gifLoopExtensions
  swap
  · rw [if_neg hkn, emit_not_loop limits]
    intro hlp
    obtain ⟨_, _, _, hbloc, hmem, -⟩ := SubBlocks.isLoop_iff.mp hlp
    cases hbloc
    exact hkn hmem
  rw [if_pos hkn]
  cases bs with
  | nil =>
    have hsz : (0 : UInt8) ≠ 3 := by decide
    rw [index_run_nil h, ok_bind, if_neg hsz, emit_not_loop limits]
    exact Bool.false_ne_true
  | cons d more =>
    have hd := (sizes d (mem_cons_of_mem _ mem_cons_self)).2
    rw [index_run h, ok_bind]
    by_cases hthr : d.length = 3
    swap
    · rw [if_neg fun heq => hthr ((size_eq_iff hd 3).mp heq), emit_not_loop limits]
      intro hlp
      obtain ⟨_, _, _, hbloc, -, hlen, -⟩ := SubBlocks.isLoop_iff.mp hlp
      cases hbloc
      exact hthr hlen
    rw [if_pos ((size_eq_iff hd 3).mpr hthr)]
    obtain ⟨id, count, rfl⟩ := List.exists_cons_of_length_pos (l := d) (by omega)
    have hspl : buf.drop pos = [UInt8.ofNat (id :: count).length] ++
        id :: (count ++ (printRun more ++ rest)) := by
      rw [h, printRun, cons_append, append_assoc]
      rfl
    have hid : index buf (pos + 1) = .ok id := index_ahead _ hspl rfl
    rw [hid, ok_bind]
    by_cases hone : id = 1
    swap
    · rw [if_neg hone, emit_not_loop limits]
      intro hlp
      obtain ⟨_, _, _, hbloc, -, -, hhd⟩ := SubBlocks.isLoop_iff.mp hlp
      cases hbloc
      exact hone (Option.some.inj hhd)
    have hcnt : slice buf pos (pos + 4) =
        .ok (UInt8.ofNat (id :: count).length :: id :: count) := by
      refine slice_ahead [] _ hpos hspl rfl ?_
      rw [length_cons, hthr]
    have hlp : SubBlocks.isLoop ⟨b :: (id :: count) :: more, sizes⟩ = true :=
      SubBlocks.isLoop_iff.mpr ⟨_, _, _, rfl, hkn, hthr, congrArg some hone⟩
    have hcle := (GifBlock.clean_application ⟨b :: (id :: count) :: more, sizes⟩).trans (if_pos hlp)
    rw [if_pos hone, hcnt, ok_bind, emit_extension limits hcle]
    change Outcome.ok ([0x21, 0xff, 11] ++ b ++ _ ++ [0]) = Outcome.ok (0x21 :: 0xff ::
      UInt8.ofNat b.length :: (b ++ UInt8.ofNat (id :: count).length :: (id :: count ++ [0])))
    rw [(size_eq_iff (sizes b mem_cons_self).2 11).mpr hele]
    simp

theorem keepExtension_application (hbd : body ≤ buf.length)
    (h : buf.drop body = printRun data.blocks ++ rest) :
    keepExtension buf 0xff body = .ok ((gif limits).emit (.extension 0xff data)) := by
  have hne : (0xff : UInt8) ≠ 0xf9 := by decide
  rw [keepExtension, if_neg hne, if_pos rfl]
  obtain ⟨blocks, sizes⟩ := data
  cases blocks with
  | nil =>
    have hsz : (0 : UInt8) ≠ 11 := by decide
    rw [index_run_nil h, ok_bind, if_neg hsz, emit_not_loop limits]
    exact Bool.false_ne_true
  | cons b bs =>
    have hb := (sizes b mem_cons_self).2
    rw [index_run h, ok_bind]
    by_cases hele : b.length = 11
    · have hlen := length_ahead h hbd
      rw [printRun, length_cons, length_append] at hlen
      have hdt := drop_run h
      rw [hele] at hdt
      rw [if_pos ((size_eq_iff hb 11).mpr hele), slice_run hbd h (by omega), ok_bind]
      exact keepLoop_eq limits sizes hele (by omega) hdt
    · rw [if_neg fun heq => hele ((size_eq_iff hb 11).mp heq), emit_not_loop limits]
      intro hlp
      obtain ⟨_, _, _, hbloc, hkn, -⟩ := SubBlocks.isLoop_iff.mp hlp
      cases hbloc
      exact hele (length_of_mem_gifLoopExtensions hkn)

/-- **What is written for an extension is what the cleaner keeps of it.** -/
theorem keepExtension_eq (frames : ℕ) (label : UInt8) (hbd : body ≤ buf.length)
    (h : buf.drop body = printRun data.blocks ++ rest) :
    keepExtension buf label body = (GifBlock.check limits frames (.extension label data)).andThen
      fun _ => .ok ((gif limits).emit (.extension label data)) := by
  by_cases h9 : label = 0xf9
  · subst h9
    exact keepExtension_control limits frames hbd h
  rw [GifBlock.check_other _ _ _ h9]
  by_cases hf : label = 0xff
  · subst hf
    exact keepExtension_application limits hbd h
  · rw [keepExtension, if_neg h9, if_neg hf, emit_dropped limits (GifBlock.clean_other data h9 hf)]
    rfl

theorem length_print_image (i : GifImage) : (GifBlock.image i).print.length =
      10 + colorTableLen i.packed + 1 + (printRun i.data.blocks).length := by
  rw [GifBlock.print, length_cons, length_append, length_append, length_append,
    length_cons, i.place_length, i.table_length]
  simp
  omega

section

variable (fuel : ℕ) (frames : ℕ) (out : Bytes)

theorem gifLoop_image (i : GifImage) (hpos : pos ≤ buf.length)
    (h : buf.drop pos = (GifBlock.image i).print ++ rest) :
    gifLoop limits buf (fuel + 1) pos frames out =
      (GifBlock.check limits frames (.image i)).andThen fun frames' =>
        gifLoop limits buf fuel (pos + (GifBlock.image i).print.length) frames'
          (out ++ (gif limits).emit (.image i)) := by
  have hlen := length_ahead h hpos
  have hprin := length_print_image i
  obtain ⟨a, b, c, d, hplac⟩ := eq_four_of_length i.place_length
  have hspl : buf.drop pos = [0x2c, a, b, c, d, i.w0, i.w1, i.h0, i.h1, i.packed] ++
      (i.table ++ i.codeSize :: (printRun i.data.blocks ++ rest)) := by
    rw [h, GifBlock.print, hplac]
    simp
  have hdes : getRange buf pos (pos + 10) =
      some [0x2c, a, b, c, d, i.w0, i.w1, i.h0, i.h1, i.packed] :=
    getRange_ahead [] _ hpos hspl rfl rfl
  have hdt : buf.drop (pos + 10 + colorTableLen i.packed + 1) = printRun i.data.blocks ++ rest := by
    have htab : pos + 10 + colorTableLen i.packed + 1 = pos + (10 + (i.table.length + 1)) := by
      rw [i.table_length]
      omega
    rw [htab, ← drop_drop, hspl, ← drop_drop, ← drop_drop]
    change ((i.table ++ i.codeSize :: (printRun i.data.blocks ++ rest)).drop
      i.table.length).drop 1 = _
    rw [drop_left]
    rfl
  have hsk : skipSubBlocks buf (buf.length + 1) (pos + 10 + colorTableLen i.packed + 1) =
      .ok (pos + (GifBlock.image i).print.length) := by
    rw [skipSubBlocks_run i.data.sizes (by omega) (by omega) hdt]
    congr 1
    omega
  have hwhol : slice buf pos (pos + (GifBlock.image i).print.length) =
      .ok (GifBlock.image i).print := slice_ahead [] _ hpos h rfl rfl
  have hem : (gif limits).emit (.image i) = (GifBlock.image i).print :=
    Marked.emit_of_clean (show (gif limits).clean (.image i) = _ from rfl)
  have htag : (0x2c : UInt8) ≠ 0x3b := by decide
  rw [gifLoop, orDecode_ahead hspl, ok_bind, if_neg htag, if_pos rfl, hdes, hem,
    GifBlock.check]
  change ((checkDimensions (leU16 i.w0 i.w1) (leU16 i.h0 i.h1) limits).andThen fun _ =>
    (skipSubBlocks buf (buf.length + 1) (pos + 10 + colorTableLen i.packed + 1)).andThen fun end_ =>
      (slice buf pos end_).andThen fun image =>
        gifLoop limits buf fuel end_ (frames + 1) (out ++ image)) = _
  rw [hsk]
  change ((checkDimensions (leU16 i.w0 i.w1) (leU16 i.h0 i.h1) limits).andThen fun _ =>
    (slice buf pos (pos + (GifBlock.image i).print.length)).andThen fun image =>
      gifLoop limits buf fuel (pos + (GifBlock.image i).print.length) (frames + 1)
        (out ++ image)) = _
  rw [hwhol]
  cases checkDimensions (leU16 i.w0 i.w1) (leU16 i.h0 i.h1) limits <;> rfl

theorem gifLoop_extension (label : UInt8) (data : SubBlocks)
    (hpos : pos ≤ buf.length) (h : buf.drop pos = (GifBlock.extension label data).print ++ rest) :
    gifLoop limits buf (fuel + 1) pos frames out =
      (GifBlock.check limits frames (.extension label data)).andThen fun frames' =>
        gifLoop limits buf fuel (pos + (GifBlock.extension label data).print.length) frames'
          (out ++ (gif limits).emit (.extension label data)) := by
  have hlen := length_ahead h hpos
  have hprin : (GifBlock.extension label data).print.length =
      2 + (printRun data.blocks).length := Nat.add_comm _ 2
  have hlab : buf.drop (pos + 1) = label :: (printRun data.blocks ++ rest) := by
    rw [← drop_drop, h]
    rfl
  have hbd : buf.drop (pos + 2) = printRun data.blocks ++ rest := by
    rw [← drop_drop, h]
    rfl
  have hsk : skipSubBlocks buf (buf.length + 1) (pos + 2) =
      .ok (pos + (GifBlock.extension label data).print.length) := by
    rw [skipSubBlocks_run data.sizes (by omega) (by omega) hbd]
    congr 1
    omega
  have htag : (0x21 : UInt8) ≠ 0x3b := by decide
  have htag' : (0x21 : UInt8) ≠ 0x2c := by decide
  rw [gifLoop, orDecode_ahead (show buf.drop pos = _ from h), ok_bind, if_neg htag, if_neg htag',
    if_pos rfl, orDecode_ahead hlab, ok_bind]
  dsimp only
  rw [hsk, ok_bind, keepExtension_eq limits frames label (by omega) hbd]
  by_cases hchk : label = 0xf9 ∧ data.size ≠ some 4
  · rw [show GifBlock.check limits frames (.extension label data) = .err .decode from
      if_pos hchk]
    rfl
  · rw [show GifBlock.check limits frames (.extension label data) = .ok frames from
      if_neg hchk]
    rfl

theorem gifLoop_block (b : GifBlock) (hpos : pos ≤ buf.length)
    (h : buf.drop pos = b.print ++ rest) : gifLoop limits buf (fuel + 1) pos frames out =
      (GifBlock.check limits frames b).andThen fun frames' =>
        if (gif limits).last b then .ok (out ++ (gif limits).emit b, frames')
        else gifLoop limits buf fuel (pos + b.print.length) frames'
          (out ++ (gif limits).emit b) := by
  cases b with
  | image i => exact gifLoop_image limits fuel frames out i hpos h
  | extension label data => exact gifLoop_extension limits fuel frames out label data hpos h
  | trailer =>
    rw [gifLoop, orDecode_ahead (show buf.drop pos = _ from h), ok_bind, if_pos rfl]
    rfl

end

theorem exists_descriptor {l : Bytes} (h : l.length = 9) : ∃ a b c d w0 w1 h0 h1 packed,
    l = [a, b, c, d, w0, w1, h0, h1, packed] := by
  match l, h with
  | [a, b, c, d, w0, w1, h0, h1, packed], _ => exact ⟨a, b, c, d, w0, w1, h0, h1, packed, rfl⟩

section

variable (fuel : ℕ) (frames : ℕ) (out : Bytes)

theorem gifLoop_no_image {tail : Bytes}
    (hpos : pos ≤ buf.length) (hdr : buf.drop pos = 0x2c :: tail)
    (h : ¬ ∃ (i : GifImage) (rest : Bytes), buf.drop pos = (GifBlock.image i).print ++ rest) :
    ∃ e, gifLoop limits buf (fuel + 1) pos frames out = .err e := by
  have htag : (0x2c : UInt8) ≠ 0x3b := by decide
  rw [gifLoop, orDecode_ahead hdr, ok_bind, if_neg htag, if_pos rfl]
  have hlen := length_ahead (show buf.drop pos = [0x2c] ++ tail from hdr) hpos
  rw [List.length_singleton] at hlen
  by_cases hten : pos + 10 ≤ buf.length
  swap
  · have hnon : getRange buf pos (pos + 10) = none := if_neg fun hin => hten hin.2
    exact ⟨.decode, by rw [hnon]; rfl⟩
  obtain ⟨nine, more, rfl, hni⟩ := exists_cut (n := 9) (by omega : 9 ≤ tail.length)
  obtain ⟨a, b, c, d, w0, w1, h0, h1, packed, rfl⟩ := exists_descriptor hni
  have hdes : getRange buf pos (pos + 10) = some [0x2c, a, b, c, d, w0, w1, h0, h1, packed] :=
    getRange_ahead [] _ hpos hdr rfl rfl
  rw [hdes]
  change ∃ e, ((checkDimensions (leU16 w0 w1) (leU16 h0 h1) limits).andThen fun _ =>
    (skipSubBlocks buf (buf.length + 1) (pos + 10 + colorTableLen packed + 1)).andThen fun end_ =>
      (slice buf pos end_).andThen fun image =>
        gifLoop limits buf fuel end_ (frames + 1) (out ++ image)) = .err e
  unfold checkDimensions
  by_cases hlar : limits.maxSide < leU16 w0 w1 ∨ limits.maxSide < leU16 h0 h1 ∨
      limits.maxPixels < leU16 w0 w1 * leU16 h0 h1
  · exact ⟨.tooLarge, by rw [if_pos hlar]; rfl⟩
  rw [if_neg hlar]
  obtain herr | ⟨run, rest, hrun⟩ := exists_run buf (buf.length + 1)
    (pos + 10 + colorTableLen packed + 1) (by omega) (Nat.succ_pos _)
  · exact ⟨.decode, by rw [herr]; rfl⟩
  refine absurd ?_ h
  have hmr : buf.drop (pos + 10) = more := by
    rw [← drop_drop, hdr]
    rfl
  obtain ⟨size, after, hrunn⟩ := exists_printRun_eq_cons run.blocks
  have hrm : colorTableLen packed + 1 ≤ more.length := by
    have hrunl := congrArg List.length hrun
    rw [Nat.add_assoc, ← drop_drop, hmr, length_drop, hrunn, length_append,
      length_cons] at hrunl
    omega
  obtain ⟨front, behind, rfl, hfron⟩ := exists_cut hrm
  obtain ⟨table, codes, rfl, htab⟩ :=
    exists_cut (n := colorTableLen packed) (by omega : _ ≤ front.length)
  rw [length_append] at hfron
  obtain ⟨codeSize, rfl⟩ := List.length_eq_one_iff.mp (by omega : codes.length = 1)
  have hbeh : behind = printRun run.blocks ++ rest := by
    rw [← hrun, Nat.add_assoc, ← drop_drop, hmr, ← htab]
    have hsn : (table ++ [codeSize]).length = table.length + 1 := length_append
    rw [← hsn, drop_left]
  refine ⟨⟨[a, b, c, d], w0, w1, h0, h1, packed, table, codeSize, run, rfl, htab⟩, rest, ?_⟩
  rw [hdr, hbeh, GifBlock.print]
  simp

theorem gifLoop_refuses (hpos : pos ≤ buf.length)
    (h : ¬ ∃ (b : GifBlock) (rest : Bytes), buf.drop pos = b.print ++ rest) :
    ∃ e, gifLoop limits buf (fuel + 1) pos frames out = .err e := by
  cases hdr : buf.drop pos with
  | nil =>
    have hnon : buf[pos]? = none := List.getElem?_eq_none (List.drop_eq_nil_iff.mp hdr)
    exact ⟨.decode, by rw [gifLoop, hnon]; rfl⟩
  | cons tag tail =>
    by_cases htrail : tag = 0x3b
    · exact absurd ⟨.trailer, tail, by rw [hdr, htrail]; rfl⟩ h
    by_cases hima : tag = 0x2c
    · subst hima
      exact gifLoop_no_image limits fuel frames out hpos hdr fun ⟨i, rest, hi⟩ => h ⟨.image i, rest, hi⟩
    by_cases hext : tag = 0x21
    swap
    · refine ⟨.decode, ?_⟩
      rw [gifLoop, orDecode_ahead hdr, ok_bind, if_neg htrail, if_neg hima, if_neg hext]
    rw [gifLoop, orDecode_ahead hdr, ok_bind, if_neg htrail, if_neg hima, if_pos hext]
    cases tail with
    | nil =>
      have hnon : buf[pos + 1]? = none := by
        refine List.getElem?_eq_none ?_
        have hlen := length_ahead (show buf.drop pos = [tag] ++ [] from hdr) hpos
        exact Nat.le_of_eq hlen
      exact ⟨.decode, by rw [hnon]; rfl⟩
    | cons label body =>
      have hlab : buf.drop (pos + 1) = label :: body := by
        rw [← drop_drop, hdr]
        rfl
      have hbd : buf.drop (pos + 2) = body := by
        rw [← drop_drop, hdr]
        rfl
      rw [orDecode_ahead hlab, ok_bind]
      dsimp only
      obtain herr | ⟨run, rest, hrun⟩ := exists_run buf (buf.length + 1) (pos + 2) (by omega)
        (Nat.succ_pos _)
      · exact ⟨.decode, by rw [herr]; rfl⟩
      · refine absurd ⟨.extension label run, rest, ?_⟩ h
        rw [hdr, hext, ← hbd, hrun]
        rfl

end

theorem check_settled (frames : ℕ) (b : GifBlock) :
    (∃ frames', GifBlock.check limits frames b = .ok frames') ∨
      ∃ e, GifBlock.check limits frames b = .err e := by
  cases b with
  | image i =>
    unfold GifBlock.check checkDimensions
    dsimp only
    split
    · exact .inr ⟨_, rfl⟩
    · exact .inl ⟨_, rfl⟩
  | extension label data =>
    unfold GifBlock.check
    dsimp only
    split
    · exact .inr ⟨_, rfl⟩
    · exact .inl ⟨_, rfl⟩
  | trailer => exact .inl ⟨_, rfl⟩

/-- **Every turn of the loop reads a block.** -/
theorem gifLoop_walks : (gif limits).Walks buf (gifLoop limits buf) := by
  intro fuel pos frames out hpos
  by_cases h : ∃ (b : GifBlock) (rest : Bytes), buf.drop pos = b.print ++ rest
  · obtain ⟨b, rest, hrd⟩ := h
    have htr := gifLoop_block limits fuel frames out b hpos hrd
    obtain ⟨frames', hok⟩ | ⟨e, he⟩ := check_settled limits frames b
    · rw [hok] at htr
      exact .read b rest frames' hrd hok htr
    · rw [he] at htr
      refine .refused e htr fun b' rest' s' h hchk => ?_
      obtain ⟨rfl, -⟩ := GifBlock.print_inj (h.symm.trans hrd)
      exact nomatch he.symm.trans hchk
  · obtain ⟨e, he⟩ := gifLoop_refuses limits fuel frames out hpos h
    exact .refused e he fun b rest s' hrd _ => h ⟨b, rest, hrd⟩

end Walk

/-- The header, the logical screen descriptor and the color table it announces. -/
def GifHeader (header : Bytes) : Prop :=
  ∃ fixed packed tail table, fixed.length = 10 ∧ tail.length = 2 ∧
    table.length = colorTableLen packed ∧ header = fixed ++ packed :: (tail ++ table)

theorem GifHeader.inj {d d' rest' : Bytes} (h : GifHeader d) (h' : GifHeader d')
    (heq : d ++ rest = d' ++ rest') : d = d' := by
  obtain ⟨fixed, packed, tail, table, hfix, htl, htab, rfl⟩ := h
  obtain ⟨fixed', packed', tail', table', hfix', htl', htab', rfl⟩ := h'
  simp only [append_assoc, cons_append] at heq
  obtain ⟨rfl, hpac⟩ := append_inj heq (hfix.trans hfix'.symm)
  obtain ⟨rfl, htai⟩ := List.cons.inj hpac
  obtain ⟨rfl, htabl⟩ := append_inj htai (htl.trans htl'.symm)
  obtain ⟨rfl, -⟩ := append_inj htabl (htab.trans htab'.symm)
  rfl

/-- **Cleaning a GIF is parsing it, dropping and reducing blocks, and writing them again.** -/
theorem walkGif_performs (limits : ImageLimits) :
    Performs ((gif limits).container GifHeader) id fun buf => walkGif buf limits := by
  refine Marked.performs (gifLoop limits) (fun _ => gifLoop_walks limits) GifHeader.inj fun buf => ?_
  unfold walkGif
  by_cases h13 : buf.length < 13
  · refine .inl ⟨.decode, if_pos h13, ?_⟩
    rintro d rest ⟨fixed, packed, tail, table, hfix, htl, htab, rfl⟩ rfl
    rw [length_append, length_append, length_cons, length_append] at h13
    omega
  rw [if_neg h13]
  obtain ⟨fixed, more, hbuf, hfix⟩ := exists_cut (n := 10) (by omega : 10 ≤ buf.length)
  have hlen := congrArg List.length hbuf
  rw [length_append] at hlen
  obtain ⟨packed, more, rfl⟩ := List.exists_cons_of_length_pos (l := more) (by omega)
  rw [length_cons] at hlen
  have hpac : index buf 10 = .ok packed :=
    index_ahead fixed (show buf.drop 0 = _ from hbuf) (by rw [hfix])
  rw [hpac, ok_bind]
  obtain ⟨tail, more, rfl, htl⟩ := exists_cut (n := 2) (by omega : 2 ≤ more.length)
  rw [length_append] at hlen
  by_cases hend : buf.length < 13 + colorTableLen packed
  · refine .inl ⟨.decode, if_pos hend, ?_⟩
    rintro d rest ⟨fixed', packed', tail', table, hfix', htl', htab, rfl⟩ heq
    simp only [append_assoc, cons_append] at heq
    obtain ⟨-, hrs⟩ := append_inj (hbuf.symm.trans heq) (hfix.trans hfix'.symm)
    obtain ⟨rfl, htai⟩ := List.cons.inj hrs
    have hlen' := congrArg List.length htai
    rw [length_append, length_append, length_append] at hlen'
    omega
  · rw [if_neg hend]
    obtain ⟨table, rest, rfl, htab⟩ :=
      exists_cut (n := colorTableLen packed) (by omega : _ ≤ more.length)
    have hspl : buf = (fixed ++ packed :: (tail ++ table)) ++ rest := by
      rw [hbuf]
      simp
    have hhea : (fixed ++ packed :: (tail ++ table)).length = 13 + colorTableLen packed := by
      rw [length_append, length_cons, length_append, hfix, htl, htab]
      omega
    have hslic : slice buf 0 (13 + colorTableLen packed) =
        .ok (fixed ++ packed :: (tail ++ table)) :=
      slice_ahead [] rest (Nat.zero_le _) (show buf.drop 0 = _ from hspl) rfl
        (by rw [hhea, Nat.zero_add])
    refine .inr ⟨_, rest, ⟨fixed, packed, tail, table, hfix, htl, htab, rfl⟩, hspl, ?_⟩
    rw [hslic, hhea, ok_bind]
    exact (Outcome.onOk_id _).symm

/-- A graphic control loses its second sub-block, a comment is dropped, an image stays. -/
example : walkGif (ascii "GIF89a" ++ [1, 0, 1, 0, 0, 0, 0] ++
    [0x21, 0xf9, 4, 1, 2, 3, 4, 1, 9, 0] ++ [0x21, 0xfe, 1, 7, 0] ++
    [0x2c, 0, 0, 0, 0, 1, 0, 1, 0, 0, 2, 1, 5, 0] ++ [0x3b, 8]) ⟨1, 1⟩ =
      .ok (ascii "GIF89a" ++ [1, 0, 1, 0, 0, 0, 0] ++ [0x21, 0xf9, 4, 1, 2, 3, 4, 0] ++
        [0x2c, 0, 0, 0, 0, 1, 0, 1, 0, 0, 2, 1, 5, 0] ++ [0x3b], 1) := by
  decide

end SlogaBackend.Files
