/-!
# LambdaTally.Sampling.ContentHash

XXH3 with 64 bits of result, seed zero and the default secret: the hash that ties the random
stream of a file to its content. Words are little-endian. Each range of lengths has a mixing scheme
of its own; inputs above 240 octets run through eight accumulators, a stripe of 64 octets at a
time.
-/

namespace LambdaTally
namespace ContentHash

def prime32a : UInt64 := 0x9E3779B1
def prime32b : UInt64 := 0x85EBCA77
def prime32c : UInt64 := 0xC2B2AE3D
def prime64a : UInt64 := 0x9E3779B185EBCA87
def prime64b : UInt64 := 0xC2B2AE3D27D4EB4F
def prime64c : UInt64 := 0x165667B19E3779F9
def prime64d : UInt64 := 0x85EBCA77C2B2AE63
def prime64e : UInt64 := 0x27D4EB2F165667C5
def mixPrime : UInt64 := 0x165667919E3779F9
def lengthPrime : UInt64 := 0x9FB21C651E98DF25

/-- The default secret, 192 octets. -/
def secret : ByteArray := ⟨#[
  0xb8, 0xfe, 0x6c, 0x39, 0x23, 0xa4, 0x4b, 0xbe, 0x7c, 0x01, 0x81, 0x2c, 0xf7, 0x21, 0xad, 0x1c,
  0xde, 0xd4, 0x6d, 0xe9, 0x83, 0x90, 0x97, 0xdb, 0x72, 0x40, 0xa4, 0xa4, 0xb7, 0xb3, 0x67, 0x1f,
  0xcb, 0x79, 0xe6, 0x4e, 0xcc, 0xc0, 0xe5, 0x78, 0x82, 0x5a, 0xd0, 0x7d, 0xcc, 0xff, 0x72, 0x21,
  0xb8, 0x08, 0x46, 0x74, 0xf7, 0x43, 0x24, 0x8e, 0xe0, 0x35, 0x90, 0xe6, 0x81, 0x3a, 0x26, 0x4c,
  0x3c, 0x28, 0x52, 0xbb, 0x91, 0xc3, 0x00, 0xcb, 0x88, 0xd0, 0x65, 0x8b, 0x1b, 0x53, 0x2e, 0xa3,
  0x71, 0x64, 0x48, 0x97, 0xa2, 0x0d, 0xf9, 0x4e, 0x38, 0x19, 0xef, 0x46, 0xa9, 0xde, 0xac, 0xd8,
  0xa8, 0xfa, 0x76, 0x3f, 0xe3, 0x9c, 0x34, 0x3f, 0xf9, 0xdc, 0xbb, 0xc7, 0xc7, 0x0b, 0x4f, 0x1d,
  0x8a, 0x51, 0xe0, 0x4b, 0xcd, 0xb4, 0x59, 0x31, 0xc8, 0x9f, 0x7e, 0xc9, 0xd9, 0x78, 0x73, 0x64,
  0xea, 0xc5, 0xac, 0x83, 0x34, 0xd3, 0xeb, 0xc3, 0xc5, 0x81, 0xa0, 0xff, 0xfa, 0x13, 0x63, 0xeb,
  0x17, 0x0d, 0xdd, 0x51, 0xb7, 0xf0, 0xda, 0x49, 0xd3, 0x16, 0x55, 0x26, 0x29, 0xd4, 0x68, 0x9e,
  0x2b, 0x16, 0xbe, 0x58, 0x7d, 0x47, 0xa1, 0xfc, 0x8f, 0xf8, 0xb8, 0xd1, 0x7a, 0xd0, 0x31, 0xce,
  0x45, 0xcb, 0x3a, 0x8f, 0x95, 0x16, 0x04, 0x28, 0xaf, 0xd7, 0xfb, 0xca, 0xbb, 0x4b, 0x40, 0x7e]⟩

/-- The octet at an index, zero past the end. -/
def octet (data : ByteArray) (i : Nat) : UInt64 := (data.data.getD i 0).toUInt64

/-- The word of 32 bits that starts at an index. -/
def word32 (data : ByteArray) (i : Nat) : UInt64 :=
  octet data i ||| (octet data (i + 1) <<< 8) ||| (octet data (i + 2) <<< 16) |||
    (octet data (i + 3) <<< 24)

/-- The word of 64 bits that starts at an index. -/
def word64 (data : ByteArray) (i : Nat) : UInt64 :=
  word32 data i ||| (word32 data (i + 4) <<< 32)

def rotateLeft (x : UInt64) (n : UInt64) : UInt64 := (x <<< n) ||| (x >>> (64 - n))

/-- A word with its octets in reverse order. -/
def reverseOctets (x : UInt64) : UInt64 :=
  (List.range 8).foldl (fun r i => (r <<< 8) ||| ((x >>> (8 * UInt64.ofNat i)) &&& 0xFF)) 0

/-- The two halves of a product of 128 bits, combined. -/
def foldedProduct (x y : UInt64) : UInt64 :=
  let product := x.toNat * y.toNat
  UInt64.ofNat (product % UInt64.size) ^^^ UInt64.ofNat (product / UInt64.size)

/-- The final mix of the two shortest ranges of lengths. -/
def strongAvalanche (h : UInt64) : UInt64 :=
  let h := (h ^^^ (h >>> 33)) * prime64b
  let h := (h ^^^ (h >>> 29)) * prime64c
  h ^^^ (h >>> 32)

/-- The final mix of the longer ranges. -/
def avalanche (h : UInt64) : UInt64 :=
  let h := (h ^^^ (h >>> 37)) * mixPrime
  h ^^^ (h >>> 32)

/-- Sixteen octets of content against sixteen of the secret. -/
def mix (data : ByteArray) (i s : Nat) : UInt64 :=
  foldedProduct (word64 data i ^^^ word64 secret s) (word64 data (i + 8) ^^^ word64 secret (s + 8))

/-- No content. -/
def hash0 : UInt64 := strongAvalanche (word64 secret 56 ^^^ word64 secret 64)

/-- One to three octets. -/
def hash1to3 (data : ByteArray) : UInt64 :=
  let n := data.size
  let combined := (octet data 0 <<< 16) ||| (octet data (n / 2) <<< 24) ||| octet data (n - 1) |||
    (UInt64.ofNat n <<< 8)
  strongAvalanche (combined ^^^ (word32 secret 0 ^^^ word32 secret 4))

/-- Four to eight octets. -/
def hash4to8 (data : ByteArray) : UInt64 :=
  let n := data.size
  let content := word32 data (n - 4) + (word32 data 0 <<< 32)
  let h := content ^^^ (word64 secret 8 ^^^ word64 secret 16)
  let h := (h ^^^ rotateLeft h 49 ^^^ rotateLeft h 24) * lengthPrime
  let h := (h ^^^ ((h >>> 35) + UInt64.ofNat n)) * lengthPrime
  h ^^^ (h >>> 28)

/-- Nine to sixteen octets. -/
def hash9to16 (data : ByteArray) : UInt64 :=
  let n := data.size
  let low := word64 data 0 ^^^ (word64 secret 24 ^^^ word64 secret 32)
  let high := word64 data (n - 8) ^^^ (word64 secret 40 ^^^ word64 secret 48)
  avalanche (UInt64.ofNat n + reverseOctets low + high + foldedProduct low high)

/-- Seventeen to 128 octets: pairs of sixteen from both ends inwards. -/
def hash17to128 (data : ByteArray) : UInt64 :=
  let n := data.size
  let pairs := (n - 1) / 32 + 1
  avalanche ((List.range pairs).foldl
    (fun h i => h + mix data (16 * i) (32 * i) + mix data (n - 16 * (i + 1)) (32 * i + 16))
    (UInt64.ofNat n * prime64a))

/-- 129 to 240 octets. -/
def hash129to240 (data : ByteArray) : UInt64 :=
  let n := data.size
  let head := (List.range 8).foldl (fun h i => h + mix data (16 * i) (16 * i))
    (UInt64.ofNat n * prime64a)
  let body := (List.range (n / 16 - 8)).foldl
    (fun h i => h + mix data (16 * (i + 8)) (16 * i + 3)) (avalanche head)
  avalanche (body + mix data (n - 16) 119)

/-- The eight accumulators of a long input. -/
abbrev Lanes := Array UInt64

def Lanes.start : Lanes :=
  #[prime32c, prime64a, prime64b, prime64c, prime64d, prime32b, prime64e, prime32a]

def Lanes.lane (lanes : Lanes) (k : Nat) : UInt64 := Array.getD lanes k 0

/-- Takes in the stripe of content at `i` under the secret at `s`. A lane adds its own product and
its neighbour's content. -/
def Lanes.absorb (lanes : Lanes) (data : ByteArray) (i s : Nat) : Lanes :=
  (Array.range 8).map fun (k : Nat) =>
    let key : UInt64 := word64 data (i + 8 * k) ^^^ word64 secret (s + 8 * k)
    lanes.lane k + word64 data (i + 8 * (if k % 2 = 0 then k + 1 else k - 1)) +
      (key &&& (0xFFFFFFFF : UInt64)) * (key >>> (32 : UInt64))

/-- Mixes the lanes after a full block. -/
def Lanes.scramble (lanes : Lanes) : Lanes :=
  (Array.range 8).map fun (k : Nat) =>
    let lane := lanes.lane k
    (lane ^^^ (lane >>> 47) ^^^ word64 secret (128 + 8 * k)) * prime32a

/-- Takes in `count` stripes from `i` on, each under the next eight octets of the secret. -/
def Lanes.absorbMany (lanes : Lanes) (data : ByteArray) (i count : Nat) : Lanes :=
  (List.range count).foldl (fun lanes k => lanes.absorb data (i + 64 * k) (8 * k)) lanes

/-- More than 240 octets: blocks of sixteen stripes, then the stripes left over, then the last 64
octets once more. -/
def hashLong (data : ByteArray) : UInt64 :=
  let n := data.size
  let blocks := (n - 1) / 1024
  let lanes := (List.range blocks).foldl
    (fun (lanes : Lanes) b => (lanes.absorbMany data (1024 * b) 16).scramble) Lanes.start
  let lanes := lanes.absorbMany data (1024 * blocks) ((n - 1 - 1024 * blocks) / 64)
  let lanes := lanes.absorb data (n - 64) 121
  avalanche ((List.range 4).foldl
    (fun h k => h + foldedProduct (lanes.lane (2 * k) ^^^ word64 secret (11 + 16 * k))
      (lanes.lane (2 * k + 1) ^^^ word64 secret (19 + 16 * k)))
    (UInt64.ofNat n * prime64a))

/-- The hash of a content. -/
def hash (data : ByteArray) : UInt64 :=
  let n := data.size
  if n = 0 then hash0
  else if n ≤ 3 then hash1to3 data
  else if n ≤ 8 then hash4to8 data
  else if n ≤ 16 then hash9to16 data
  else if n ≤ 128 then hash17to128 data
  else if n ≤ 240 then hash129to240 data
  else hashLong data

end ContentHash
end LambdaTally
