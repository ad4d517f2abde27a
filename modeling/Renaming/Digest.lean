/-!
The digest SHA-256: the message is padded to whole blocks of 64 bytes with a one bit, zeros and its
length, and each block is mixed into eight words of 32 bits.
-/

namespace Renaming.Digest

/-- The constants of the 64 rounds: the first 32 bits of the fractions of the cube roots of the
first 64 primes. -/
def roundConstants : Array UInt32 := #[
  0x428a2f98, 0x71374491, 0xb5c0fbcf, 0xe9b5dba5, 0x3956c25b, 0x59f111f1, 0x923f82a4, 0xab1c5ed5,
  0xd807aa98, 0x12835b01, 0x243185be, 0x550c7dc3, 0x72be5d74, 0x80deb1fe, 0x9bdc06a7, 0xc19bf174,
  0xe49b69c1, 0xefbe4786, 0x0fc19dc6, 0x240ca1cc, 0x2de92c6f, 0x4a7484aa, 0x5cb0a9dc, 0x76f988da,
  0x983e5152, 0xa831c66d, 0xb00327c8, 0xbf597fc7, 0xc6e00bf3, 0xd5a79147, 0x06ca6351, 0x14292967,
  0x27b70a85, 0x2e1b2138, 0x4d2c6dfc, 0x53380d13, 0x650a7354, 0x766a0abb, 0x81c2c92e, 0x92722c85,
  0xa2bfe8a1, 0xa81a664b, 0xc24b8b70, 0xc76c51a3, 0xd192e819, 0xd6990624, 0xf40e3585, 0x106aa070,
  0x19a4c116, 0x1e376c08, 0x2748774c, 0x34b0bcb5, 0x391c0cb3, 0x4ed8aa4a, 0x5b9cca4f, 0x682e6ff3,
  0x748f82ee, 0x78a5636f, 0x84c87814, 0x8cc70208, 0x90befffa, 0xa4506ceb, 0xbef9a3f7, 0xc67178f2]

/-- The eight words between blocks. -/
structure Words where
  a : UInt32
  b : UInt32
  c : UInt32
  d : UInt32
  e : UInt32
  f : UInt32
  g : UInt32
  h : UInt32
  deriving DecidableEq, Repr

/-- The words at the start: the first 32 bits of the fractions of the square roots of the first
eight primes. -/
def Words.start : Words :=
  ⟨0x6a09e667, 0xbb67ae85, 0x3c6ef372, 0xa54ff53a, 0x510e527f, 0x9b05688c, 0x1f83d9ab, 0x5be0cd19⟩

/-- The sums of the words of two states. -/
def Words.add (x y : Words) : Words :=
  ⟨x.a + y.a, x.b + y.b, x.c + y.c, x.d + y.d, x.e + y.e, x.f + y.f, x.g + y.g, x.h + y.h⟩

/-- The words as a list. -/
def Words.toList (x : Words) : List UInt32 := [x.a, x.b, x.c, x.d, x.e, x.f, x.g, x.h]

/-- A word turned to the right. -/
def rotate (x : UInt32) (n : UInt32) : UInt32 := (x >>> n) ||| (x <<< (32 - n))

/-- The bytes of a number, the highest first. -/
def bigEndian (width n : Nat) : List UInt8 :=
  ((List.range width).map fun i => ((n >>> (8 * i)) % 256).toUInt8).reverse

/-- What is put behind a message of `n` bytes. -/
def padding (n : Nat) : List UInt8 :=
  0x80 :: (List.replicate ((119 - n % 64) % 64) 0 ++ bigEndian 8 (8 * n))

/-- The words that four bytes each make. -/
def wordsOf : List UInt8 → List UInt32
  | a :: b :: c :: d :: rest =>
    (a.toUInt32 <<< 24 ||| b.toUInt32 <<< 16 ||| c.toUInt32 <<< 8 ||| d.toUInt32) :: wordsOf rest
  | _ => []

/-- The words of the 64 rounds, from the sixteen of a block. -/
def schedule (block : Array UInt32) : (rounds : Nat) → Array UInt32
  | 0 => block
  | n + 1 =>
    let w := schedule block n
    let word (back : Nat) : UInt32 := w.getD (w.size - back) 0
    let x := word 15
    let y := word 2
    let s := rotate x 7 ^^^ rotate x 18 ^^^ (x >>> 3)
    let t := rotate y 17 ^^^ rotate y 19 ^^^ (y >>> 10)
    w.push (word 16 + s + word 7 + t)

/-- One round. -/
def round (x : Words) (constant word : UInt32) : Words :=
  let s := rotate x.e 6 ^^^ rotate x.e 11 ^^^ rotate x.e 25
  let choice := (x.e &&& x.f) ^^^ (~~~x.e &&& x.g)
  let t := x.h + s + choice + constant + word
  let u := rotate x.a 2 ^^^ rotate x.a 13 ^^^ rotate x.a 22
  let majority := (x.a &&& x.b) ^^^ (x.a &&& x.c) ^^^ (x.b &&& x.c)
  ⟨t + u + majority, x.a, x.b, x.c, x.d + t, x.e, x.f, x.g⟩

/-- Mixes a block into the words. -/
def mix (x : Words) (block : List UInt32) : Words :=
  let w := schedule block.toArray 48
  x.add ((roundConstants.toList.zip w.toList).foldl (fun y (k, w) => round y k w) x)

/-- Mixes all blocks into the words. -/
def mixAll (x : Words) : (blocks : Nat) → List UInt32 → Words
  | 0, _ => x
  | n + 1, ws => mixAll (mix x (ws.take 16)) n (ws.drop 16)

/-- The digest of some bytes, in hexadecimal digits. -/
def sha256 (bytes : ByteArray) : String :=
  let ws := wordsOf (bytes.toList ++ padding bytes.size)
  let x := mixAll .start (ws.length / 16) ws
  let digits := x.toList.flatMap fun w =>
    (bigEndian 4 w.toNat).flatMap fun b => [b.toNat / 16, b.toNat % 16]
  String.ofList (digits.map Nat.digitChar)

end Renaming.Digest
