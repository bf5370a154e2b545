import Mathlib.Data.List.Basic

/-!
# Cleaning a file by parsing, filtering and writing again

A file is a header and a row of blocks. A cleaner checks every block, drops some of them and
writes the others again, each perhaps in a poorer form. Three laws make that a cleaning and no
more: what is written for a block is written for itself again, it is checked as the block was, and
a block that is dropped is not checked at all. From them, whatever the file format:

* a cleaned file is its own cleaning (`Performs.again`), and
* two files with the same header and the same kept blocks have the same cleaning
  (`Performs.of_kept`), so that nothing that was dropped is told by the result.

`Container` says how a file holds its blocks. `Marked` is the container whose last block is an end
marker, and `Walks` is a loop over positions of the bytes that reads one block each turn; it comes
to an end, and what it returns is the cleaning (`Marked.performs`). No block is the beginning of
another one (`Marked.print_inj`), so there is one way to read the bytes.
-/

namespace SlogaBackend

/-- What a computation comes to: a value, an error it returns, a read out of bounds, or fuel that
was not enough. -/
inductive Outcome (ε α : Type*) where
  | ok (a : α)
  | err (e : ε)
  | panic
  | spin
  deriving DecidableEq

namespace Outcome

variable {ε α β : Type*}

/-- One computation after another. -/
def andThen : Outcome ε α → (α → Outcome ε β) → Outcome ε β
  | ok a, f => f a
  | err e, _ => err e
  | panic, _ => panic
  | spin, _ => spin

instance : Monad (Outcome ε) where
  pure := ok
  bind := andThen

section Bind

universe u v

variable {ε : Type u} {α β : Type v}

@[simp] theorem ok_bind (a : α) (f : α → Outcome ε β) : (ok a >>= f) = f a := rfl

@[simp] theorem err_bind (e : ε) (f : α → Outcome ε β) :
    ((err e : Outcome ε α) >>= f) = err e := rfl

theorem bind_eq_ok {o : Outcome ε α} {f : α → Outcome ε β} {b : β} :
    (o >>= f) = ok b ↔ ∃ a, o = ok a ∧ f a = ok b := by
  cases o with
  | ok a => exact ⟨fun h => ⟨a, rfl, h⟩, fun ⟨_, ha, h⟩ => Outcome.ok.inj ha ▸ h⟩
  | _ => exact ⟨nofun, nofun⟩

end Bind

@[simp] theorem ok_andThen (a : α) (f : α → Outcome ε β) : (ok a).andThen f = f a := rfl

/-- The value under a function. -/
def onOk (f : α → β) (o : Outcome ε α) : Outcome ε β := o.andThen fun a => ok (f a)

@[simp] theorem onOk_ok (f : α → β) (a : α) : (ok a : Outcome ε α).onOk f = ok (f a) := rfl

@[simp] theorem onOk_err (f : α → β) (e : ε) : (err e : Outcome ε α).onOk f = err e := rfl

/-- It came to an end, and read nothing out of bounds. -/
def Settled : Outcome ε α → Prop
  | ok _ => True
  | err _ => True
  | panic => False
  | spin => False

variable {f : α → β} {o : Outcome ε α}

theorem onOk_eq_ok {b : β} : o.onOk f = ok b ↔ ∃ a, o = ok a ∧ f a = b := by
  cases o with
  | ok a => simp
  | err e => simp
  | _ => simp [onOk, andThen]

theorem onOk_id (o : Outcome ε α) : (o.onOk fun a => a) = o := by cases o <;> rfl

theorem onOk_onOk {γ : Type*} (f : α → β) (g : β → γ) (o : Outcome ε α) :
    (o.onOk f).onOk g = o.onOk fun a => g (f a) := by
  cases o <;> rfl

theorem settled_onOk : (o.onOk f).Settled ↔ o.Settled := by
  cases o <;> rfl

end Outcome

namespace Cleaning

variable {α β δ ρ σ ε : Type*}

/-! ## Blocks -/

/-- How blocks are checked, with a state carried from one to the next, and what is kept of each. -/
structure Cleaner (β σ ε : Type*) where
  start : σ
  check : σ → β → Outcome ε σ
  clean : β → Option β
  clean_clean : ∀ {b b'}, clean b = some b' → clean b' = some b'
  check_clean : ∀ {b b'} s, clean b = some b' → check s b' = check s b
  check_dropped : ∀ {b} s, clean b = none → check s b = .ok s

namespace Cleaner

variable (c : Cleaner β σ ε)

/-- What is kept of a row of blocks. -/
def cleaned (bs : List β) : List β := bs.filterMap c.clean

/-- The checks of a row of blocks, in order. -/
def checkAll : σ → List β → Outcome ε σ
  | s, [] => .ok s
  | s, b :: bs => (c.check s b).andThen fun s' => checkAll s' bs

variable {c} {b : β}

theorem cleaned_cons_some {b' : β} (h : c.clean b = some b') (bs : List β) :
    c.cleaned (b :: bs) = b' :: c.cleaned bs := List.filterMap_cons_some h

theorem cleaned_cons_none (h : c.clean b = none) (bs : List β) :
    c.cleaned (b :: bs) = c.cleaned bs := List.filterMap_cons_none h

theorem checkAll_cons_ok {s s' : σ} (h : c.check s b = .ok s') (bs : List β) :
    c.checkAll s (b :: bs) = c.checkAll s' bs := by
  rw [checkAll, h]
  rfl

theorem checkAll_cons_eq_ok {s t : σ} {bs : List β} (h : c.checkAll s (b :: bs) = .ok t) :
    ∃ s', c.check s b = .ok s' ∧ c.checkAll s' bs = .ok t := by
  rw [checkAll] at h
  cases hb : c.check s b with
  | ok s' => exact ⟨s', rfl, by rwa [hb] at h⟩
  | _ => rw [hb] at h; nomatch h

/-- **What is kept is kept whole the next time.** -/
theorem cleaned_cleaned (bs : List β) : c.cleaned (c.cleaned bs) = c.cleaned bs := by
  induction bs with
  | nil => rfl
  | cons b bs ih =>
    cases hb : c.clean b with
    | none => rw [cleaned_cons_none hb, ih]
    | some b' => rw [cleaned_cons_some hb, cleaned_cons_some (c.clean_clean hb), ih]

/-- **What is kept passes the checks as the whole did.** -/
theorem checkAll_cleaned (s : σ) (bs : List β) : c.checkAll s (c.cleaned bs) = c.checkAll s bs := by
  induction bs generalizing s with
  | nil => rfl
  | cons b bs ih =>
    cases hb : c.clean b with
    | none => rw [cleaned_cons_none hb, ih, checkAll_cons_ok (c.check_dropped s hb)]
    | some b' =>
      rw [cleaned_cons_some hb, checkAll, checkAll, c.check_clean s hb]
      congr 1
      funext s'
      exact ih s'

end Cleaner

/-! ## Files -/

/-- How a file of bytes holds a header and blocks, and how it is written. `Fits` is what a file
must meet to be written at all. -/
structure Container (c : Cleaner β σ ε) (α δ : Type*) where
  Frames : List α → δ → List β → Prop
  write : δ → List β → List α
  Fits : List α → Prop
  frames_cleaned : ∀ {buf d bs}, Frames buf d bs → Fits (write d (c.cleaned bs)) →
    Frames (write d (c.cleaned bs)) d (c.cleaned bs)

/-- The walk comes to an end on every file, and returns the cleaning of those that are read as
blocks, pass the checks and fit; `report` is what it says of the final state. -/
structure Performs {c : Cleaner β σ ε} (k : Container c α δ) (report : σ → ρ)
    (walk : List α → Outcome ε (List α × ρ)) : Prop where
  settled : ∀ buf, (walk buf).Settled
  ok_iff : ∀ {buf out r}, walk buf = .ok (out, r) ↔ ∃ d bs t, k.Frames buf d bs ∧
    c.checkAll c.start bs = .ok t ∧ k.Fits (k.write d (c.cleaned bs)) ∧
      out = k.write d (c.cleaned bs) ∧ r = report t

namespace Performs

variable {c : Cleaner β σ ε} {k : Container c α δ} {report : σ → ρ}
  {walk : List α → Outcome ε (List α × ρ)}

section

variable (h : Performs k report walk) {buf out : List α} {r : ρ} (hwl : walk buf = .ok (out, r))
include h hwl

/-- **A cleaned file is its own cleaning.** -/
theorem again : walk out = .ok (out, r) := by
  obtain ⟨d, bs, t, hfram, hchk, hft, rfl, rfl⟩ := h.ok_iff.mp hwl
  refine h.ok_iff.mpr ⟨d, c.cleaned bs, t, k.frames_cleaned hfram hft, ?_, ?_, ?_, rfl⟩
  · rw [Cleaner.checkAll_cleaned, hchk]
  · rwa [Cleaner.cleaned_cleaned]
  · rw [Cleaner.cleaned_cleaned]

/-- **The cleaning is that of any other file with the same header and the same kept blocks.** -/
theorem of_kept : ∃ d bs, k.Frames buf d bs ∧
      out = k.write d (c.cleaned bs) ∧ k.Fits out ∧ ∀ buf' bs', k.Frames buf' d bs' →
        c.cleaned bs' = c.cleaned bs → walk buf' = .ok (out, r) := by
  obtain ⟨d, bs, t, hfram, hchk, hft, rfl, rfl⟩ := h.ok_iff.mp hwl
  refine ⟨d, bs, hfram, rfl, hft, fun buf' bs' hfram' hkp => ?_⟩
  refine h.ok_iff.mpr ⟨d, bs', t, hfram', ?_, by rwa [hkp], by rw [hkp], rfl⟩
  rw [← Cleaner.checkAll_cleaned, hkp, Cleaner.checkAll_cleaned, hchk]

end

end Performs

/-! ## Rows of blocks up to an end marker -/

/-- Blocks that are written one after another, the last of them an end marker. -/
structure Marked (α β σ ε : Type*) extends Cleaner β σ ε where
  print : β → List α
  last : β → Bool
  print_ne_nil : ∀ b, print b ≠ []
  print_inj : ∀ {b b' rest rest'}, print b ++ rest = print b' ++ rest' → b = b' ∧ rest = rest'
  last_clean : ∀ {b b'}, clean b = some b' → last b' = last b
  last_dropped : ∀ {b}, clean b = none → last b = false

/-- The row ends with its first end marker. -/
inductive Closed (last : β → Bool) : List β → Prop where
  | stop {b : β} : last b = true → Closed last [b]
  | cons {b : β} {bs : List β} : last b = false → Closed last bs → Closed last (b :: bs)

namespace Marked

variable (m : Marked α β σ ε)

/-- The bytes of a row of blocks. -/
def encode (bs : List β) : List α := bs.flatMap m.print

/-- The bytes kept of one block. -/
def emit (b : β) : List α := m.encode (m.clean b).toList

variable {m}

theorem encode_cons (b : β) (bs : List β) : m.encode (b :: bs) = m.print b ++ m.encode bs :=
  List.flatMap_cons

variable {b : β} {bs : List β}

theorem emit_of_clean {b' : β} (h : m.clean b = some b') : m.emit b = m.print b' := by
  rw [emit, h, Option.toList_some, encode_cons]
  exact List.append_nil _

theorem emit_of_dropped (h : m.clean b = none) : m.emit b = [] := by
  rw [emit, h]
  rfl

theorem encode_cleaned_cons (b : β) (bs : List β) :
    m.encode (m.cleaned (b :: bs)) = m.emit b ++ m.encode (m.cleaned bs) := by
  cases hb : m.clean b with
  | none => rw [emit_of_dropped hb, Cleaner.cleaned_cons_none hb, List.nil_append]
  | some b' => rw [emit_of_clean hb, Cleaner.cleaned_cons_some hb, encode_cons]

theorem closed_cleaned (h : Closed m.last bs) : Closed m.last (m.cleaned bs) := by
  induction h with
  | @stop b hls =>
    cases hb : m.clean b with
    | none => exact absurd ((m.last_dropped hb).symm.trans hls) Bool.false_ne_true
    | some b' =>
      rw [Cleaner.cleaned_cons_some hb]
      exact .stop ((m.last_clean hb).trans hls)
  | @cons b bs hls _ ih =>
    cases hb : m.clean b with
    | none => rwa [Cleaner.cleaned_cons_none hb]
    | some b' =>
      rw [Cleaner.cleaned_cons_some hb]
      exact .cons ((m.last_clean hb).trans hls) ih

variable (m)

/-- The container with a header before the blocks; what follows the end marker is not part of the
file. -/
def container (Header : List α → Prop) : Container m.toCleaner α (List α) where
  Frames buf d bs := Header d ∧ Closed m.last bs ∧ ∃ rest, buf = d ++ m.encode bs ++ rest
  write d bs := d ++ m.encode bs
  Fits _ := True
  frames_cleaned := by
    rintro buf d bs ⟨hheader, hclosed, -⟩ -
    exact ⟨hheader, closed_cleaned hclosed, [], (List.append_nil _).symm⟩

/-! ### A walk over positions -/

variable (buf : List α) (run : ℕ → ℕ → σ → List α → Outcome ε (List α × σ))

/-- One turn of the loop `run` at a position: it refuses, where no block that passes its check can
be read, or it reads a block and goes on behind it unless that was the end marker. -/
inductive Turn (fuel pos : ℕ) (s : σ) (out : List α) : Prop where
  | refused (e : ε) : run (fuel + 1) pos s out = .err e →
      (∀ b rest s', buf.drop pos = m.print b ++ rest → m.check s b ≠ .ok s') →
      Turn fuel pos s out
  | read (b : β) (rest : List α) (s' : σ) : buf.drop pos = m.print b ++ rest →
      m.check s b = .ok s' →
      run (fuel + 1) pos s out = (if m.last b then .ok (out ++ m.emit b, s')
        else run fuel (pos + (m.print b).length) s' (out ++ m.emit b)) →
      Turn fuel pos s out

/-- Every turn of the loop is one. -/
def Walks : Prop := ∀ fuel pos s out, pos ≤ buf.length → m.Turn buf run fuel pos s out

variable {m buf run} {pos fuel : ℕ} {rest out : List α}

theorem advance (hpos : pos ≤ buf.length) (h : buf.drop pos = m.print b ++ rest) :
    pos < pos + (m.print b).length ∧ pos + (m.print b).length ≤ buf.length := by
  have hne := List.length_pos_iff.mpr (m.print_ne_nil b)
  have hlen := congrArg List.length h
  rw [List.length_drop, List.length_append] at hlen
  omega

theorem drop_advance (h : buf.drop pos = m.print b ++ rest) :
    buf.drop (pos + (m.print b).length) = rest := by
  rw [← List.drop_drop, h, List.drop_left]

section

variable (h : m.Walks buf run) (hpos : pos ≤ buf.length) (hfl : buf.length < pos + fuel)
include h hpos hfl

/-- **The walk comes to an end.** -/
theorem Walks.settled (s : σ) (out : List α) : (run fuel pos s out).Settled := by
  induction fuel generalizing pos s out with
  | zero => omega
  | succ fuel ih =>
    cases h fuel pos s out hpos with
    | refused e hrun _ =>
      rw [hrun]
      trivial
    | read b rest s' hrd _ hrun =>
      rw [hrun]
      cases m.last b with
      | true => trivial
      | false =>
        obtain ⟨hfwd, hend⟩ := advance hpos hrd
        exact ih hend (by omega) s' _

theorem Walks.exists_blocks {s t : σ} {out' : List α} (hrun : run fuel pos s out = .ok (out', t)) :
    ∃ bs rest, Closed m.last bs ∧ buf.drop pos = m.encode bs ++ rest ∧
      m.checkAll s bs = .ok t ∧ out' = out ++ m.encode (m.cleaned bs) := by
  induction fuel generalizing pos s out with
  | zero => omega
  | succ fuel ih =>
    cases h fuel pos s out hpos with
    | refused e href _ =>
      rw [href] at hrun
      nomatch hrun
    | read b rest s' hrd hchk htr =>
      rw [htr] at hrun
      cases hls : m.last b with
      | true =>
        rw [hls] at hrun
        cases hrun
        refine ⟨[b], rest, .stop hls, ?_, Cleaner.checkAll_cons_ok hchk [], ?_⟩
        · rw [hrd, encode_cons]
          exact congrArg (· ++ rest) (List.append_nil _).symm
        · rw [encode_cleaned_cons]
          exact congrArg (out ++ ·) (List.append_nil _).symm
      | false =>
        rw [hls] at hrun
        obtain ⟨hfwd, hend⟩ := advance hpos hrd
        obtain ⟨bs, tail, hcl, hbs, hchec, hout⟩ := ih hend (by omega) hrun
        rw [drop_advance hrd] at hbs
        refine ⟨b :: bs, tail, .cons hls hcl, ?_, ?_, ?_⟩
        · rw [hrd, hbs, encode_cons, List.append_assoc]
        · rw [Cleaner.checkAll_cons_ok hchk, hchec]
        · rw [hout, encode_cleaned_cons, List.append_assoc]

end

theorem Walks.run_eq (h : m.Walks buf run) (hcl : Closed m.last bs) (hpos : pos ≤ buf.length)
    (hfl : buf.length < pos + fuel) {s t : σ} (hrd : buf.drop pos = m.encode bs ++ rest)
    (hchk : m.checkAll s bs = .ok t) :
    run fuel pos s out = .ok (out ++ m.encode (m.cleaned bs), t) := by
  induction hcl generalizing fuel pos s out with
  | @stop b hls =>
    obtain ⟨s1, hb, ht⟩ := Cleaner.checkAll_cons_eq_ok hchk
    cases ht
    rw [encode_cons, List.append_assoc] at hrd
    obtain ⟨fuel, rfl⟩ := Nat.exists_eq_succ_of_ne_zero (show fuel ≠ 0 by omega)
    cases h fuel pos s out hpos with
    | refused e _ hno => exact absurd hb (hno b _ _ hrd)
    | read b1 rest1 s' hrd1 hchk1 htr =>
      obtain ⟨rfl, -⟩ := m.print_inj (hrd.symm.trans hrd1)
      cases hb.symm.trans hchk1
      rw [htr, hls, encode_cleaned_cons]
      exact congrArg (fun l => Outcome.ok (out ++ l, _)) (List.append_nil _).symm
  | @cons b bs hls _ ih =>
    obtain ⟨s1, hb, ht⟩ := Cleaner.checkAll_cons_eq_ok hchk
    rw [encode_cons, List.append_assoc] at hrd
    obtain ⟨fuel, rfl⟩ := Nat.exists_eq_succ_of_ne_zero (show fuel ≠ 0 by omega)
    cases h fuel pos s out hpos with
    | refused e _ hno => exact absurd hb (hno b _ _ hrd)
    | read b1 rest1 s' hrd1 hchk1 htr =>
      obtain ⟨rfl, -⟩ := m.print_inj (hrd.symm.trans hrd1)
      cases hb.symm.trans hchk1
      obtain ⟨hfwd, hend⟩ := advance hpos hrd
      have hfl' : buf.length < pos + (m.print b).length + fuel := by omega
      rw [htr, hls, encode_cleaned_cons, ← List.append_assoc]
      exact ih hend hfl' (drop_advance hrd) ht

variable {walk : List α → Outcome ε (List α × ρ)} {report : σ → ρ} {Header : List α → Prop}

/-- **A walk behind a header that is found in one way performs the cleaning.** -/
theorem performs (run : List α → ℕ → ℕ → σ → List α → Outcome ε (List α × σ))
    (hwal : ∀ buf, m.Walks buf (run buf))
    (hhead : ∀ {d d' rest rest'}, Header d → Header d' → d ++ rest = d' ++ rest' → d = d')
    (hwl : ∀ buf, (∃ e, walk buf = .err e ∧ ∀ d rest, Header d → buf ≠ d ++ rest) ∨
      ∃ d rest, Header d ∧ buf = d ++ rest ∧
        walk buf = (run buf (buf.length + 1) d.length m.start d).onOk fun p => (p.1, report p.2)) :
    Performs (m.container Header) report walk where
  settled buf := by
    obtain ⟨e, he, -⟩ | ⟨d, rest, -, hbuf, hrun⟩ := hwl buf
    · rw [he]
      trivial
    · rw [hrun]
      have hpos : d.length ≤ buf.length := by
        rw [hbuf, List.length_append]
        omega
      exact Outcome.settled_onOk.mpr ((hwal buf).settled hpos (by omega) m.start d)
  ok_iff := by
    intro buf out r
    obtain ⟨e, he, hno⟩ | ⟨d, rest, hd, hbuf, hrun⟩ := hwl buf
    · rw [he]
      constructor
      · intro h
        nomatch h
      · rintro ⟨d, bs, t, ⟨hd, -, rest, hbuf⟩, -⟩
        exact absurd (hbuf.trans (List.append_assoc _ _ _)) (hno d _ hd)
    · have hpos : d.length ≤ buf.length := by
        rw [hbuf, List.length_append]
        omega
      have hdr : buf.drop d.length = rest := by rw [hbuf, List.drop_left]
      rw [hrun, Outcome.onOk_eq_ok]
      constructor
      · rintro ⟨⟨out1, t⟩, hok, heq⟩
        cases heq
        obtain ⟨bs, tail, hcl, hbs, hchk, hout⟩ := (hwal buf).exists_blocks hpos (by omega) hok
        refine ⟨d, bs, t, ⟨hd, hcl, tail, ?_⟩, hchk, trivial, hout, rfl⟩
        rw [List.append_assoc, ← hbs, hdr]
        exact hbuf
      · rintro ⟨d', bs, t, ⟨hd', hcl, tail, hbuf'⟩, hchk, -, rfl, rfl⟩
        rw [List.append_assoc] at hbuf'
        obtain rfl := hhead hd hd' (hbuf.symm.trans hbuf')
        refine ⟨(d ++ m.encode (m.cleaned bs), t), ?_, rfl⟩
        have hrd : buf.drop d.length = m.encode bs ++ tail := by
          conv_lhs => rw [hbuf', List.drop_left]
        exact (hwal buf).run_eq hcl hpos (by omega) hrd hchk

end Marked

end Cleaning

/-! ## Lemmas under their last names -/

export Outcome (ok_bind ok_andThen)

export List (length_append append_assoc drop_drop length_cons append_nil append_inj mem_cons_self
  drop_left cons_append ne_nil_of_length_pos flatten_cons mem_cons_of_mem drop_left' length_drop)

end SlogaBackend
