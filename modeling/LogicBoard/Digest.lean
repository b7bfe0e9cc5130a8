/-
  LogicBoard.Digest
  ────────────────────────────────
  **FINGERPRINTS OF 128 BITS.**

  The store tells whether a record was changed behind its back by comparing
  fingerprints.  The fingerprint is the 128-bit variant of the hash function
  XXH3 with seed zero.  Short inputs of up to 240 bytes are mixed piece by
  piece; longer ones run through eight accumulators in stripes of 64 bytes.
-/
namespace LogicBoard

/-- A fingerprint: the low and the high half of a number of 128 bits. -/
structure Digest where
  low : UInt64
  high : UInt64
deriving DecidableEq, Inhabited

namespace Digest

/-! ## §1. Constants. -/

/-- The bytes that inputs are mixed with. -/
def secret : ByteArray := ⟨#[
  0xb8, 0xfe, 0x6c, 0x39, 0x23, 0xa4, 0x4b, 0xbe, 0x7c, 0x01, 0x81, 0x2c, 0xf7, 0x21, 0xad, 0x1c,
  0xde, 0xd4, 0x6d, 0xe9, 0x83, 0x90, 0x97, 0xdb, 0x72, 0x40, 0xa4, 0xa4, 0xb7, 0xb3, 0x67, 0x1f,
  0xcb, 0x79, 0xe6, 0x4e, 0xcc, 0xc0, 0xe5, 0x78, 0x82, 0x5a, 0xd0, 0x7d, 0xcc, 0xff, 0x72, 0x21,
  0xb8, 0x08, 0x46, 0x74, 0xf7, 0x43, 0x24, 0x8e, 0xe0, 0x35, 0x90, 0xe6, 0x81, 0x3a, 0x26, 0x4c,
  0x3c, 0x28, 0x52, 0xbb, 0x91, 0xc3, 0x00, 0xcb, 0x88, 0xd0, 0x65, 0x8b, 0x1b, 0x53, 0x2e, 0xa3,
  0x71, 0x64, 0x48, 0x97, 0xa2, 0x0d, 0xf9, 0x4e, 0x38, 0x19, 0xef, 0x46, 0xa9, 0xde, 0xac, 0xd8,
  0xa8, 0xfa, 0x76, 0x3f, 0xe3, 0x9c, 0x34, 0x3f, 0xf9, 0xdc, 0xbb, 0xc7, 0xc7, 0x0b, 0x4f, 0x1d,
  0x8a, 0x51, 0xe0, 0x4b, 0xcd, 0xb4, 0x59, 0x31, 0xc8, 0x9f, 0x7e, 0xc9, 0xd9, 0x78, 0x73, 0x64,
  0xea, 0xc5, 0xac, 0x83, 0x34, 0xd3, 0xeb, 0xc3, 0xc5, 0x81, 0xa0, 0xff, 0xfa, 0x13, 0x63, 0xeb,
  0x17, 0x0d, 0xdd, 0x51, 0xb7, 0xf0, 0xda, 0x49, 0xd3, 0x16, 0x55, 0x26, 0x29, 0xd4, 0x68, 0x9e,
  0x2b, 0x16, 0xbe, 0x58, 0x7d, 0x47, 0xa1, 0xfc, 0x8f, 0xf8, 0xb8, 0xd1, 0x7a, 0xd0, 0x31, 0xce,
  0x45, 0xcb, 0x3a, 0x8f, 0x95, 0x16, 0x04, 0x28, 0xaf, 0xd7, 0xfb, 0xca, 0xbb, 0x4b, 0x40, 0x7e]⟩

def prime32a : UInt64 := 0x9E3779B1

def prime32b : UInt64 := 0x85EBCA77

def prime32c : UInt64 := 0xC2B2AE3D

def prime64a : UInt64 := 0x9E3779B185EBCA87

def prime64b : UInt64 := 0xC2B2AE3D27D4EB4F

def prime64c : UInt64 := 0x165667B19E3779F9

def prime64d : UInt64 := 0x85EBCA77C2B2AE63

def prime64e : UInt64 := 0x27D4EB2F165667C5

def primeMixA : UInt64 := 0x165667919E3779F9

def primeMixB : UInt64 := 0x9FB21C651E98DF25

/-! ## §2. Words. -/

/-- A byte of an input. -/
def byteAt (data : ByteArray) (i : Nat) : UInt64 :=
  if h : i < data.size then data[i].toUInt64 else 0

/-- Four bytes of an input, the lowest one first. -/
def word32 (data : ByteArray) (i : Nat) : UInt64 :=
  byteAt data i ||| byteAt data (i + 1) <<< 8 ||| byteAt data (i + 2) <<< 16
    ||| byteAt data (i + 3) <<< 24

/-- Eight bytes of an input, the lowest one first. -/
def word64 (data : ByteArray) (i : Nat) : UInt64 :=
  word32 data i ||| word32 data (i + 4) <<< 32

/-- The mask of the low 32 bits. -/
def lowHalf : UInt64 := 0xFFFFFFFF

/-- Reverses the four bytes of a number of 32 bits. -/
def swapBytes32 (x : UInt64) : UInt64 :=
  let byte (k : UInt64) : UInt64 := (x >>> k) &&& 0xFF
  byte 0 <<< 24 ||| byte 8 <<< 16 ||| byte 16 <<< 8 ||| byte 24

/-- Reverses the eight bytes of a number. -/
def swapBytes64 (x : UInt64) : UInt64 :=
  swapBytes32 (x &&& lowHalf) <<< 32 ||| swapBytes32 (x >>> 32)

/-- Rotates a number of 32 bits by 13 places. -/
def rotate13 (x : UInt64) : UInt64 :=
  let wide : UInt64 := x <<< 13 ||| x >>> 19
  wide &&& lowHalf

/-- The product of two numbers of 64 bits. -/
def product (a b : UInt64) : Digest :=
  let p := a.toNat * b.toNat
  ⟨UInt64.ofNat (p % Nat.pow 2 64), UInt64.ofNat (p / Nat.pow 2 64)⟩

/-- The two halves of a product, combined. -/
def foldProduct (a b : UInt64) : UInt64 :=
  let p := product a b
  p.low ^^^ p.high

/-- The product of the two halves of a number. -/
def halfProduct (x : UInt64) : UInt64 :=
  (x &&& lowHalf) * (x >>> 32)

/-- Spreads a word over all its bits, the slow way. -/
def scatter (x : UInt64) : UInt64 :=
  let x := (x ^^^ x >>> 33) * prime64b
  let x := (x ^^^ x >>> 29) * prime64c
  x ^^^ x >>> 32

/-- Spreads a word over all its bits. -/
def spread (x : UInt64) : UInt64 :=
  let x := (x ^^^ x >>> 37) * primeMixA
  x ^^^ x >>> 32

/-! ## §3. Up to 16 bytes. -/

/-- The fingerprint of nothing. -/
def ofNothing : Digest :=
  ⟨scatter (word64 secret 64 ^^^ word64 secret 72), scatter (word64 secret 80 ^^^ word64 secret 88)⟩

/-- The fingerprint of 1 to 3 bytes. -/
def ofUpTo3 (data : ByteArray) : Digest :=
  let n := data.size
  let low := byteAt data 0 <<< 16 ||| byteAt data (n / 2) <<< 24 ||| byteAt data (n - 1)
    ||| n.toUInt64 <<< 8
  let high := rotate13 (swapBytes32 low)
  ⟨scatter (low ^^^ (word32 secret 0 ^^^ word32 secret 4)),
    scatter (high ^^^ (word32 secret 8 ^^^ word32 secret 12))⟩

/-- The fingerprint of 4 to 8 bytes. -/
def ofUpTo8 (data : ByteArray) : Digest :=
  let n := data.size
  let input := word32 data 0 + word32 data (n - 4) <<< 32
  let keyed := input ^^^ (word64 secret 16 ^^^ word64 secret 24)
  let p := product keyed (prime64a + n.toUInt64 <<< 2)
  let high := p.high + p.low <<< 1
  let low := p.low ^^^ high >>> 3
  let low := (low ^^^ low >>> 35) * primeMixB
  ⟨low ^^^ low >>> 28, spread high⟩

/-- The fingerprint of 9 to 16 bytes. -/
def ofUpTo16 (data : ByteArray) : Digest :=
  let n := data.size
  let front := word64 data 0
  let back := word64 data (n - 8)
  let p := product (front ^^^ back ^^^ (word64 secret 32 ^^^ word64 secret 40)) prime64a
  let low := p.low + (n - 1).toUInt64 <<< 54
  let back := back ^^^ (word64 secret 48 ^^^ word64 secret 56)
  let high := p.high + (back + (back &&& lowHalf) * (prime32b - 1))
  let q := product (low ^^^ swapBytes64 high) prime64b
  ⟨spread q.low, spread (q.high + high * prime64b)⟩

/-! ## §4. Up to 240 bytes. -/

/-- Mixes 16 bytes of input with 16 bytes of the secret. -/
def mix16 (data : ByteArray) (i s : Nat) : UInt64 :=
  foldProduct (word64 data i ^^^ word64 secret s) (word64 data (i + 8) ^^^ word64 secret (s + 8))

/-- Mixes two pieces of 16 bytes each into both halves. -/
def mix32 (acc : Digest) (data : ByteArray) (i j s : Nat) : Digest :=
  ⟨(acc.low + mix16 data i s) ^^^ (word64 data j + word64 data (j + 8)),
    (acc.high + mix16 data j (s + 16)) ^^^ (word64 data i + word64 data (i + 8))⟩

/-- The last step for inputs of 17 to 240 bytes. -/
def finish (acc : Digest) (n : Nat) : Digest :=
  let high := acc.low * prime64a + acc.high * prime64d + n.toUInt64 * prime64b
  ⟨spread (acc.low + acc.high), 0 - spread high⟩

/-- The fingerprint of 17 to 128 bytes: pieces from both ends, the inner ones first. -/
def ofUpTo128 (data : ByteArray) : Digest :=
  let n := data.size
  let rounds := (n - 1) / 32 + 1
  let acc := (List.range rounds).reverse.foldl
    (fun acc k => mix32 acc data (16 * k) (n - 16 * (k + 1)) (32 * k))
    (⟨n.toUInt64 * prime64a, 0⟩ : Digest)
  finish acc n

/-- The fingerprint of 129 to 240 bytes: pieces from the front, and the last one. -/
def ofUpTo240 (data : ByteArray) : Digest :=
  let n := data.size
  let acc := (List.range 4).foldl
    (fun acc k => mix32 acc data (32 * k) (32 * k + 16) (32 * k))
    (⟨n.toUInt64 * prime64a, 0⟩ : Digest)
  let acc : Digest := ⟨spread acc.low, spread acc.high⟩
  let acc := (List.range (n / 32 - 4)).foldl
    (fun acc k => mix32 acc data (32 * (k + 4)) (32 * (k + 4) + 16) (32 * k + 3)) acc
  finish (mix32 acc data (n - 16) (n - 32) 103) n

/-! ## §5. Longer inputs. -/

/-- The eight accumulators. -/
structure Lanes where
  a0 : UInt64
  a1 : UInt64
  a2 : UInt64
  a3 : UInt64
  a4 : UInt64
  a5 : UInt64
  a6 : UInt64
  a7 : UInt64

/-- The accumulators before any input. -/
def Lanes.start : Lanes :=
  ⟨prime32c, prime64a, prime64b, prime64c, prime64d, prime32b, prime64e, prime32a⟩

/-- Takes in a stripe of 64 bytes: each word is added to its neighbour's lane, and the product of
the halves of the keyed word to its own. -/
def Lanes.takeIn (l : Lanes) (data : ByteArray) (i s : Nat) : Lanes :=
  let input (k : Nat) : UInt64 := word64 data (i + 8 * k)
  let keyed (k : Nat) : UInt64 := halfProduct (input k ^^^ word64 secret (s + 8 * k))
  ⟨l.a0 + input 1 + keyed 0, l.a1 + input 0 + keyed 1, l.a2 + input 3 + keyed 2,
    l.a3 + input 2 + keyed 3, l.a4 + input 5 + keyed 4, l.a5 + input 4 + keyed 5,
    l.a6 + input 7 + keyed 6, l.a7 + input 6 + keyed 7⟩

/-- Stirs one lane with a word of the secret. -/
def stir (a : UInt64) (k : Nat) : UInt64 :=
  ((a ^^^ a >>> 47) ^^^ word64 secret (128 + 8 * k)) * prime32a

/-- Stirs every lane, which ends a block. -/
def Lanes.stirAll (l : Lanes) : Lanes :=
  ⟨stir l.a0 0, stir l.a1 1, stir l.a2 2, stir l.a3 3, stir l.a4 4, stir l.a5 5, stir l.a6 6,
    stir l.a7 7⟩

/-- Takes in consecutive stripes. -/
def Lanes.takeStripes (l : Lanes) (data : ByteArray) (i count : Nat) : Lanes :=
  count.fold (fun k _ l => l.takeIn data (i + 64 * k) (8 * k)) l

/-- Joins the lanes to one word. -/
def Lanes.join (l : Lanes) (s : Nat) (start : UInt64) : UInt64 :=
  let pair (a b : UInt64) (k : Nat) : UInt64 :=
    foldProduct (a ^^^ word64 secret (s + 16 * k)) (b ^^^ word64 secret (s + 16 * k + 8))
  spread (start + pair l.a0 l.a1 0 + pair l.a2 l.a3 1 + pair l.a4 l.a5 2 + pair l.a6 l.a7 3)

/-- The fingerprint of more than 240 bytes: blocks of 16 stripes, the stripes left over, and the
last 64 bytes. -/
def ofLong (data : ByteArray) : Digest :=
  let n := data.size
  let blocks := (n - 1) / 1024
  let lanes := blocks.fold (fun k _ l => (l.takeStripes data (1024 * k) 16).stirAll) Lanes.start
  let lanes := lanes.takeStripes data (1024 * blocks) ((n - 1 - 1024 * blocks) / 64)
  let lanes := lanes.takeIn data (n - 64) 121
  ⟨lanes.join 11 (n.toUInt64 * prime64a), lanes.join 117 (~~~(n.toUInt64 * prime64b))⟩

/-! ## §6. All inputs. -/

/-- The fingerprint of bytes. -/
def ofBytes (data : ByteArray) : Digest :=
  if data.size = 0 then ofNothing
  else if data.size ≤ 3 then ofUpTo3 data
  else if data.size ≤ 8 then ofUpTo8 data
  else if data.size ≤ 16 then ofUpTo16 data
  else if data.size ≤ 128 then ofUpTo128 data
  else if data.size ≤ 240 then ofUpTo240 data
  else ofLong data

/-- The fingerprint of a text. -/
def ofText (s : String) : Digest := ofBytes s.toUTF8

/-! ## §7. Text. -/

/-- The eight bytes of a word, the lowest one first. -/
def wordBytes (x : UInt64) : List Nat :=
  (List.range 8).map fun k => x.toNat / Nat.pow 256 k % 256

/-- A byte as two hexadecimal digits. -/
def hexByte (b : Nat) : List Char :=
  [Nat.digitChar (b / 16), Nat.digitChar (b % 16)]

/-- All sixteen bytes in hexadecimal. -/
def hex (d : Digest) : String :=
  String.ofList ((wordBytes d.low ++ wordBytes d.high).flatMap hexByte)

/-- The first four bytes in hexadecimal. -/
def short (d : Digest) : String :=
  String.ofList (((wordBytes d.low).take 4).flatMap hexByte)

/-- The text that stands for a fingerprint in a listing of values. -/
def debugText (d : Digest) : String :=
  "ContentHash(" ++ d.short ++ "..)"

end Digest

end LogicBoard
