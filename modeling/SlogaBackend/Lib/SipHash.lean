import Mathlib.Data.String.Basic

/-!
# SipHash-1-3

The hash that Rust's `DefaultHasher` computes, under the key zero: one round for each block of
eight bytes and three at the end. What is written in several pieces is hashed as one.
-/

namespace SlogaBackend.SipHash

structure State where
  v0 : UInt64
  v1 : UInt64
  v2 : UInt64
  v3 : UInt64

def rotl (x : UInt64) (n : UInt64) : UInt64 := (x <<< n) ||| (x >>> (64 - n))

def round (s : State) : State :=
  let v0 := s.v0 + s.v1
  let v1 := rotl s.v1 13 ^^^ v0
  let v0 := rotl v0 32
  let v2 := s.v2 + s.v3
  let v3 := rotl s.v3 16 ^^^ v2
  let v0 := v0 + v3
  let v3 := rotl v3 21 ^^^ v0
  let v2 := v2 + v1
  let v1 := rotl v1 17 ^^^ v2
  let v2 := rotl v2 32
  ⟨v0, v1, v2, v3⟩

/-- The state under the key zero. -/
def init : State := ⟨0x736f6d6570736575, 0x646f72616e646f6d, 0x6c7967656e657261, 0x7465646279746573⟩

def absorb (s : State) (block : UInt64) : State :=
  let s := round { s with v3 := s.v3 ^^^ block }
  { s with v0 := s.v0 ^^^ block }

/-- Up to eight bytes, the first one the least. -/
def littleEndian : List UInt8 → UInt64
  | [] => 0
  | byte :: bytes => byte.toUInt64 ||| (littleEndian bytes <<< 8)

/-- The blocks of eight bytes; the last one also has the length. -/
def blocks (length : UInt64) : (fuel : Nat) → List UInt8 → List UInt64
  | 0, _ => []
  | fuel + 1, bytes =>
    if bytes.length < 8 then [(length <<< 56) ||| littleEndian bytes]
    else littleEndian (bytes.take 8) :: blocks length fuel (bytes.drop 8)

/-- The hash of a string of bytes. -/
def hash (bytes : List UInt8) : UInt64 :=
  let s := (blocks (UInt64.ofNat bytes.length) (bytes.length / 8 + 1) bytes).foldl absorb init
  let s := round (round (round { s with v2 := s.v2 ^^^ 0xff }))
  s.v0 ^^^ s.v1 ^^^ s.v2 ^^^ s.v3

example : hash "abcdefghijk".toUTF8.data.toList = 1450545860578130900 := by decide

end SlogaBackend.SipHash
