import Mathlib.Algebra.Group.Int.Defs
import Mathlib.Algebra.Group.Nat.Defs
import SlogaBackend.Lib.Cleaning

/-!
# Reading bytes

What the image walkers are built from: a slice and an index of a buffer, which panic outside it,
the fixed-width numbers, and the check of dimensions. Lengths and positions are natural numbers.
A buffer holds less than `2 ^ 63` bytes and a length field less than `2 ^ 32`, so no sum that the
walkers form reaches `2 ^ 64`, and the refusals behind `checked_add` are never taken.

A position is read through the bytes still ahead of it: `slice_ahead` and `index_ahead` say what a
slice and an index behind the position are when those bytes are known in pieces.
-/

namespace SlogaBackend.Files

abbrev Bytes := List UInt8

instance : LawfulBEq Bytes := List.instLawfulBEq

/-- Why an image was refused. -/
inductive SanitizeError where
  | notAnImage
  | tooLarge
  | decode
  deriving DecidableEq

/-- What a function of the sanitizer comes to. -/
abbrev Reading (α : Type) := Outcome SanitizeError α

/-- Bounds applied to an image before and while it is decoded. -/
structure ImageLimits where
  maxSide : ℕ
  maxPixels : ℕ

/-- The bytes of an ASCII literal. -/
def ascii (s : String) : Bytes := s.toList.map fun c => UInt8.ofNat c.toNat

/-- `buf.get(a..b)`. -/
def getRange (buf : Bytes) (a b : ℕ) : Option Bytes :=
  if a ≤ b ∧ b ≤ buf.length then some ((buf.drop a).take (b - a)) else none

/-- `buf[a..b]`. -/
def slice (buf : Bytes) (a b : ℕ) : Reading Bytes :=
  match getRange buf a b with
  | some bytes => .ok bytes
  | none => .panic

/-- `buf[i]`. -/
def index (buf : Bytes) (i : ℕ) : Reading UInt8 :=
  match buf[i]? with
  | some byte => .ok byte
  | none => .panic

/-- `.ok_or(SanitizeError::Decode)`. -/
def orDecode {α : Type} : Option α → Reading α
  | some a => .ok a
  | none => .err .decode

def beU32 (bytes : Bytes) : Reading ℕ := do
  let a ← index bytes 0
  let b ← index bytes 1
  let c ← index bytes 2
  let d ← index bytes 3
  .ok (a.toNat * 2 ^ 24 + b.toNat * 2 ^ 16 + c.toNat * 2 ^ 8 + d.toNat)

def leU32 (bytes : Bytes) : Reading ℕ := do
  let a ← index bytes 0
  let b ← index bytes 1
  let c ← index bytes 2
  let d ← index bytes 3
  .ok (a.toNat + b.toNat * 2 ^ 8 + c.toNat * 2 ^ 16 + d.toNat * 2 ^ 24)

def leU24 (bytes : Bytes) : Reading ℕ := do
  let a ← index bytes 0
  let b ← index bytes 1
  let c ← index bytes 2
  .ok (a.toNat + b.toNat * 2 ^ 8 + c.toNat * 2 ^ 16)

/-- `u16::from_le_bytes`. -/
def leU16 (a b : UInt8) : ℕ := a.toNat + b.toNat * 2 ^ 8

def beBytes (n : ℕ) : Bytes :=
  [UInt8.ofNat (n / 2 ^ 24), UInt8.ofNat (n / 2 ^ 16), UInt8.ofNat (n / 2 ^ 8), UInt8.ofNat n]

def leBytes (n : ℕ) : Bytes :=
  [UInt8.ofNat n, UInt8.ofNat (n / 2 ^ 8), UInt8.ofNat (n / 2 ^ 16), UInt8.ofNat (n / 2 ^ 24)]

/-- Refuse dimensions over either side limit or the pixel budget. -/
def checkDimensions (width height : ℕ) (limits : ImageLimits) : Reading Unit :=
  if limits.maxSide < width ∨ limits.maxSide < height ∨ limits.maxPixels < width * height then
    .err .tooLarge
  else .ok ()

/-! ## Reading behind a position -/

section Ahead

variable {buf : Bytes} {pos a b i : ℕ}

theorem length_ahead {pre post : Bytes} (h : buf.drop pos = pre ++ post) (hpos : pos ≤ buf.length) :
    buf.length = pos + (pre.length + post.length) := by
  have hlen := congrArg List.length h
  rw [length_drop, length_append] at hlen
  omega

section

variable (pre : Bytes) {mid : Bytes} (post : Bytes) (hpos : pos ≤ buf.length)
  (h : buf.drop pos = pre ++ (mid ++ post)) (ha : a = pos + pre.length) (hb : b = a + mid.length)
include hpos h ha hb

theorem getRange_ahead : getRange buf a b = some mid := by
  have hlen := length_ahead h hpos
  rw [length_append] at hlen
  have hdr : buf.drop a = mid ++ post := by rw [ha, ← drop_drop, h, drop_left]
  unfold getRange
  rw [if_pos (by omega), hdr, hb, Nat.add_sub_cancel_left, List.take_left]

theorem slice_ahead : slice buf a b = .ok mid := by
  unfold slice
  rw [getRange_ahead pre post hpos h ha hb]

end

theorem getElem?_ahead (pre : Bytes) {post : Bytes} (h : buf.drop pos = pre ++ post)
    (hi : i = pos + pre.length) : buf[i]? = post[0]? := by
  have hdr : buf.drop i = post := by rw [hi, ← drop_drop, h, drop_left]
  rw [← hdr, List.getElem?_drop, Nat.add_zero]

theorem index_ahead (pre : Bytes) {post : Bytes} {byte : UInt8}
    (h : buf.drop pos = pre ++ byte :: post) (hi : i = pos + pre.length) :
    index buf i = .ok byte := by
  unfold index
  rw [getElem?_ahead pre h hi]
  rfl

theorem exists_slice {buf : Bytes} (hab : a ≤ b) (hb : b ≤ buf.length) :
    ∃ mid, slice buf a b = .ok mid ∧ mid.length = b - a := by
  refine ⟨(buf.drop a).take (b - a), ?_, ?_⟩
  · unfold slice getRange
    rw [if_pos ⟨hab, hb⟩]
  · rw [List.length_take, length_drop]
    omega

theorem exists_cut {l : Bytes} {n : ℕ} (h : n ≤ l.length) :
    ∃ front back, l = front ++ back ∧ front.length = n :=
  ⟨l.take n, l.drop n, (List.take_append_drop n l).symm, List.length_take_of_le h⟩

end Ahead

/-! ## Numbers -/

theorem length_beBytes (n : ℕ) : (beBytes n).length = 4 := rfl

theorem length_leBytes (n : ℕ) : (leBytes n).length = 4 := rfl

variable {n a b : ℕ} {buf l : Bytes}

theorem beU32_beBytes (h : n < 2 ^ 32) : beU32 (beBytes n) = .ok n := by
  have hsum : (UInt8.ofNat (n / 2 ^ 24)).toNat * 2 ^ 24 + (UInt8.ofNat (n / 2 ^ 16)).toNat * 2 ^ 16 +
      (UInt8.ofNat (n / 2 ^ 8)).toNat * 2 ^ 8 + (UInt8.ofNat n).toNat = n := by
    simp
    omega
  exact congrArg Outcome.ok hsum

theorem leU32_leBytes (h : n < 2 ^ 32) : leU32 (leBytes n) = .ok n := by
  have hsum : (UInt8.ofNat n).toNat + (UInt8.ofNat (n / 2 ^ 8)).toNat * 2 ^ 8 +
      (UInt8.ofNat (n / 2 ^ 16)).toNat * 2 ^ 16 + (UInt8.ofNat (n / 2 ^ 24)).toNat * 2 ^ 24 = n := by
    simp
    omega
  exact congrArg Outcome.ok hsum

theorem beU32_slice (hn : n < 2 ^ 32) (h : slice buf a b = .ok (beBytes n)) :
    (slice buf a b).andThen beU32 = .ok n := by
  rw [h, ok_andThen, beU32_beBytes hn]

theorem leU32_slice (hn : n < 2 ^ 32) (h : slice buf a b = .ok (leBytes n)) :
    (slice buf a b).andThen leU32 = .ok n := by
  rw [h, ok_andThen, leU32_leBytes hn]

theorem eq_four_of_length (h : l.length = 4) : ∃ a b c d, l = [a, b, c, d] := by
  match l, h with
  | [a, b, c, d], _ => exact ⟨a, b, c, d, rfl⟩

theorem ofNat_eq_of_mod {a : UInt8} (h : n % 2 ^ 8 = a.toNat) : UInt8.ofNat n = a := by
  rw [← UInt8.toNat_inj, UInt8.toNat_ofNat', h]

theorem exists_beBytes (h : l.length = 4) : ∃ n < 2 ^ 32, l = beBytes n := by
  obtain ⟨a, b, c, d, rfl⟩ := eq_four_of_length h
  have ha := a.toNat_lt
  have hb := b.toNat_lt
  have hc := c.toNat_lt
  have hd := d.toNat_lt
  refine ⟨a.toNat * 2 ^ 24 + b.toNat * 2 ^ 16 + c.toNat * 2 ^ 8 + d.toNat, by omega, ?_⟩
  unfold beBytes
  rw [ofNat_eq_of_mod (a := a) (by omega), ofNat_eq_of_mod (a := b) (by omega),
    ofNat_eq_of_mod (a := c) (by omega), ofNat_eq_of_mod (a := d) (by omega)]

theorem exists_leBytes (h : l.length = 4) : ∃ n < 2 ^ 32, l = leBytes n := by
  obtain ⟨a, b, c, d, rfl⟩ := eq_four_of_length h
  have ha := a.toNat_lt
  have hb := b.toNat_lt
  have hc := c.toNat_lt
  have hd := d.toNat_lt
  refine ⟨a.toNat + b.toNat * 2 ^ 8 + c.toNat * 2 ^ 16 + d.toNat * 2 ^ 24, by omega, ?_⟩
  unfold leBytes
  rw [ofNat_eq_of_mod (a := a) (by omega), ofNat_eq_of_mod (a := b) (by omega),
    ofNat_eq_of_mod (a := c) (by omega), ofNat_eq_of_mod (a := d) (by omega)]

theorem exists_beU32 (buf : Bytes) (a : ℕ) (h : a + 4 ≤ buf.length) :
    ∃ n, (slice buf a (a + 4)).andThen beU32 = .ok n := by
  obtain ⟨mid, hmid, hlen⟩ := exists_slice (Nat.le_add_right a 4) h
  obtain ⟨n, hn, rfl⟩ := exists_beBytes (hlen.trans (Nat.add_sub_cancel_left a 4))
  exact ⟨n, beU32_slice hn hmid⟩

theorem beBytes_inj {m : ℕ} (hm : m < 2 ^ 32) (hn : n < 2 ^ 32) (h : beBytes m = beBytes n) :
    m = n := by
  have heq := beU32_beBytes hm
  rw [h, beU32_beBytes hn] at heq
  exact (Outcome.ok.inj heq).symm

end SlogaBackend.Files
