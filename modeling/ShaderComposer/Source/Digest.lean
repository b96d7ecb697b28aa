/-!
# The 128-bit digest of a text

The XXH3 hash with a 128-bit result, for seed zero and the standard secret. Inputs are hashed by
length: up to 16 bytes in one step, up to 240 bytes by mixing pairs of 16-byte pieces, longer ones
by eight lanes that take in stripes of 64 bytes. All arithmetic wraps at 64 bits except the
128-bit products.
-/

namespace ShaderComposer

/-- A 128-bit number in two halves. -/
structure Digest where
  low : UInt64
  high : UInt64
deriving DecidableEq, Inhabited

namespace Digest

/-! ### Constants -/

/-- The standard secret, 192 bytes. -/
def secret : ByteArray := ⟨#[
  0xb8, 0xfe, 0x6c, 0x39, 0x23, 0xa4, 0x4b, 0xbe, 0x7c, 0x01, 0x81, 0x2c, 0xf7, 0x21, 0xad, 0x1c,
  0xde, 0xd4, 0x6d, 0xe9, 0x83, 0x90, 0x97, 0xdb, 0x72, 0x40, 0xa4, 0xa4, 0xb7, 0xb3, 0x67, 0x1f,
  0xcb, 0x79, 0xe6, 0x4e, 0xcc, 0xc0, 0xe5, 0x78, 0x82, 0x5a, 0xd0, 0x7d, 0xcc, 0xff, 0x72, 0x21,
  0xb8, 0x08, 0x46, 0x74, 0xf7, 0x43, 0x24, 0x8e, 0xe0, 0x35, 0x90, 0xe6, 0x81, 0x3a, 0x26, 0x4c,
  0x3c, 0x28, 0x52, 0xbb, 0x91, 0xc3, 0x00, 0xcb, 0x88, 0xd0, 0x65, 0x8b, 0x1b, 0x53, 0x2e, 0xa3,
  0x71, 0x64, 0x48, 0x97, 0xa2, 0x0d, 0xf9, 0x4e, 0x38, 0x19, 0xef, 0x46, 0xa9, 0xde, 0xac, 0xd8,
  0xa8, 0xfa, 0x76, 0x3f, 0xe3, 0x9c, 0x34, 0x3f, 0xf9, 0xdc, 0xbb, 0xc7, 0xc7, 0x0b, 0x4f, 0x1d,
  0x8a, 0x51, 0xe0, 0x4b, 0xcd, 0xb4, 0x59, 0x31, 0xc8, 0x9f, 0x7e, 0xc9, 0xd9, 0x78, 0x73, 0x64,
  0xea, 0xc5, 0xac, 0x83, 0x34, 0xd3, 0xeb, 0xc3, 0xc5, 0x81, 0xa0, 0xff, 0xfa, 0x13, 0x63, 0xeb,
  0x17, 0x0d, 0xdd, 0x51, 0xb7, 0xf0, 0xda, 0x49, 0xd3, 0x16, 0x55, 0x26, 0x29, 0xd4, 0x68, 0x9e,
  0x2b, 0x16, 0xbe, 0x58, 0x7d, 0x47, 0xa1, 0xfc, 0x8f, 0xf8, 0xb8, 0xd1, 0x7a, 0xd0, 0x31, 0xce,
  0x45, 0xcb, 0x3a, 0x8f, 0x95, 0x16, 0x04, 0x28, 0xaf, 0xd7, 0xfb, 0xca, 0xbb, 0x4b, 0x40, 0x7e]⟩

def prime32 : Fin 3 → UInt64
  | 0 => 0x9e3779b1
  | 1 => 0x85ebca77
  | 2 => 0xc2b2ae3d

def prime64 : Fin 5 → UInt64
  | 0 => 0x9e3779b185ebca87
  | 1 => 0xc2b2ae3d27d4eb4f
  | 2 => 0x165667b19e3779f9
  | 3 => 0x85ebca77c2b2ae63
  | 4 => 0x27d4eb2f165667c5

/-! ### Words -/

/-- The byte at a position; bytes past the end are zero. -/
def byteAt (data : ByteArray) (i : Nat) : UInt64 := (data[i]?.getD 0).toUInt64

/-- The little-endian word of `size` bytes at a position. -/
def wordAt (data : ByteArray) : Nat → Nat → UInt64
  | _, 0 => 0
  | i, size + 1 => byteAt data i ||| (wordAt data (i + 1) size <<< 8)

def word64 (data : ByteArray) (i : Nat) : UInt64 := wordAt data i 8

def word32 (data : ByteArray) (i : Nat) : UInt64 := wordAt data i 4

/-- The two secret words at a position, combined. -/
def secretPair (i : Nat) : UInt64 := word64 secret i ^^^ word64 secret (i + 8)

/-- The bytes of a word of `size` bytes in reverse order. -/
def reverseBytes (size : Nat) (x : UInt64) : UInt64 :=
  match size with
  | 0 => 0
  | size + 1 => ((x &&& 0xff) <<< (8 * UInt64.ofNat size)) ||| reverseBytes size (x >>> 8)

def product (a b : UInt64) : Digest :=
  let exact := a.toNat * b.toNat
  ⟨UInt64.ofNat exact, UInt64.ofNat (exact >>> 64)⟩

/-- The two halves of the full product, combined. -/
def foldedProduct (a b : UInt64) : UInt64 :=
  let p := product a b
  p.low ^^^ p.high

def lowHalf (x : UInt64) : UInt64 := x &&& 0xffffffff

def xorShift (x amount : UInt64) : UInt64 := x ^^^ (x >>> amount)

def avalanche (x : UInt64) : UInt64 := xorShift (xorShift x 37 * 0x165667919e3779f9) 32

def strongAvalanche (x : UInt64) : UInt64 :=
  xorShift (xorShift (xorShift x 33 * prime64 1) 29 * prime64 2) 32

/-! ### Up to 16 bytes -/

def ofNothing : Digest := ⟨strongAvalanche (secretPair 64), strongAvalanche (secretPair 80)⟩

def ofThree (data : ByteArray) : Digest :=
  let n := data.size
  let low := (byteAt data 0 <<< 16) ||| (byteAt data (n / 2) <<< 24) ||| byteAt data (n - 1) |||
    (UInt64.ofNat n <<< 8)
  let swapped := reverseBytes 4 low
  let high := ((swapped <<< 13) ||| (swapped >>> 19)) &&& 0xffffffff
  ⟨strongAvalanche (low ^^^ word32 secret 0 ^^^ word32 secret 4),
    strongAvalanche (high ^^^ word32 secret 8 ^^^ word32 secret 12)⟩

def ofEight (data : ByteArray) : Digest :=
  let n := data.size
  let both := word32 data 0 + (word32 data (n - 4) <<< 32)
  let p := product (both ^^^ secretPair 16) (prime64 0 + (UInt64.ofNat n <<< 2))
  let high := p.high + (p.low <<< 1)
  let low := p.low ^^^ (high >>> 3)
  ⟨xorShift (xorShift low 35 * 0x9fb21c651e98df25) 28, avalanche high⟩

def ofSixteen (data : ByteArray) : Digest :=
  let n := data.size
  let first := word64 data 0
  let last := word64 data (n - 8)
  let p := product (first ^^^ last ^^^ secretPair 32) (prime64 0)
  let mixed := last ^^^ secretPair 48
  let high := p.high + mixed + lowHalf mixed * (prime32 1 - 1)
  let low := (p.low + (UInt64.ofNat (n - 1) <<< 54)) ^^^ reverseBytes 8 high
  let q := product low (prime64 1)
  ⟨avalanche q.low, avalanche (q.high + high * prime64 1)⟩

/-! ### Up to 240 bytes -/

def mix16 (data : ByteArray) (i key : Nat) : UInt64 :=
  foldedProduct (word64 data i ^^^ word64 secret key)
    (word64 data (i + 8) ^^^ word64 secret (key + 8))

def mix32 (data : ByteArray) (acc : Digest) (i j key : Nat) : Digest :=
  ⟨(acc.low + mix16 data i key) ^^^ (word64 data j + word64 data (j + 8)),
    (acc.high + mix16 data j (key + 16)) ^^^ (word64 data i + word64 data (i + 8))⟩

def finishMixed (n : Nat) (acc : Digest) : Digest :=
  ⟨avalanche (acc.low + acc.high),
    0 - avalanche (acc.low * prime64 0 + acc.high * prime64 3 + UInt64.ofNat n * prime64 1)⟩

/-- The digest of 17 to 128 bytes: pieces from both ends towards the middle, the inmost first. -/
def ofShort (data : ByteArray) : Digest :=
  let n := data.size
  let pairs := (n - 1) / 32 + 1
  finishMixed n <| (List.range pairs).reverse.foldl
    (fun acc k => mix32 data acc (16 * k) (n - 16 * (k + 1)) (32 * k))
    ⟨UInt64.ofNat n * prime64 0, 0⟩

/-- The digest of 129 to 240 bytes: pieces in order, and the last 32 bytes once more. -/
def ofMedium (data : ByteArray) : Digest :=
  let n := data.size
  let opening := (List.range 4).foldl
    (fun acc k => mix32 data acc (32 * k) (32 * k + 16) (32 * k))
    ⟨UInt64.ofNat n * prime64 0, 0⟩
  let middle := (List.range (n / 32 - 4)).foldl
    (fun acc k => mix32 data acc (128 + 32 * k) (144 + 32 * k) (3 + 32 * k))
    ⟨avalanche opening.low, avalanche opening.high⟩
  finishMixed n (mix32 data middle (n - 16) (n - 32) 103)

/-! ### Longer inputs -/

def lanes : List UInt64 :=
  [prime32 2, prime64 0, prime64 1, prime64 2, prime64 3, prime32 1, prime64 4, prime32 0]

def stripe (data : ByteArray) (i key : Nat) (acc : List UInt64) : List UInt64 :=
  acc.mapIdx fun lane x =>
    let keyed := word64 data (i + 8 * lane) ^^^ word64 secret (key + 8 * lane)
    x + word64 data (i + 8 * (lane ^^^ 1)) + lowHalf keyed * (keyed >>> 32)

/-- A number of stripes taken in, the secret moving on by eight bytes for each. -/
def stripes (data : ByteArray) (start count : Nat) (acc : List UInt64) : List UInt64 :=
  (List.range count).foldl (fun acc k => stripe data (start + 64 * k) (8 * k) acc) acc

def scramble (acc : List UInt64) : List UInt64 :=
  acc.mapIdx fun lane x => (xorShift x 47 ^^^ word64 secret (128 + 8 * lane)) * prime32 0

def merge (acc : List UInt64) (key : Nat) (start : UInt64) : UInt64 :=
  avalanche <| (List.range 4).foldl
    (fun sum k => sum + foldedProduct (acc.getD (2 * k) 0 ^^^ word64 secret (key + 16 * k))
      (acc.getD (2 * k + 1) 0 ^^^ word64 secret (key + 16 * k + 8)))
    start

/-- The digest of more than 240 bytes: blocks of 16 stripes, the rest, and the last 64 bytes. -/
def ofLong (data : ByteArray) : Digest :=
  let n := data.size
  let blocks := (n - 1) / 1024
  let whole := (List.range blocks).foldl
    (fun acc k => scramble (stripes data (1024 * k) 16 acc)) lanes
  let rest := stripes data (1024 * blocks) ((n - 1 - 1024 * blocks) / 64) whole
  let last := stripe data (n - 64) 121 rest
  ⟨merge last 11 (UInt64.ofNat n * prime64 0), merge last 117 (~~~(UInt64.ofNat n * prime64 1))⟩

/-! ### All lengths -/

def ofBytes (data : ByteArray) : Digest :=
  if data.size = 0 then ofNothing
  else if data.size ≤ 3 then ofThree data
  else if data.size ≤ 8 then ofEight data
  else if data.size ≤ 16 then ofSixteen data
  else if data.size ≤ 128 then ofShort data
  else if data.size ≤ 240 then ofMedium data
  else ofLong data

def ofText (text : String) : Digest := ofBytes text.toUTF8

def hex (d : Digest) : String :=
  let digits := Nat.toDigits 16 ((d.high.toNat <<< 64) + d.low.toNat)
  String.ofList (List.replicate (32 - digits.length) '0' ++ digits)

end Digest

end ShaderComposer
