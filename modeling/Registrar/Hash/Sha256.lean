/-!
# SHA-256

The hash of a list of bytes, its keyed form, and the derivation of a key from another one.
-/

namespace Registrar.Hash

def initial : List UInt32 :=
  [0x6a09e667, 0xbb67ae85, 0x3c6ef372, 0xa54ff53a, 0x510e527f, 0x9b05688c, 0x1f83d9ab, 0x5be0cd19]

def roundWords : List UInt32 :=
  [0x428a2f98, 0x71374491, 0xb5c0fbcf, 0xe9b5dba5, 0x3956c25b, 0x59f111f1, 0x923f82a4, 0xab1c5ed5,
   0xd807aa98, 0x12835b01, 0x243185be, 0x550c7dc3, 0x72be5d74, 0x80deb1fe, 0x9bdc06a7, 0xc19bf174,
   0xe49b69c1, 0xefbe4786, 0x0fc19dc6, 0x240ca1cc, 0x2de92c6f, 0x4a7484aa, 0x5cb0a9dc, 0x76f988da,
   0x983e5152, 0xa831c66d, 0xb00327c8, 0xbf597fc7, 0xc6e00bf3, 0xd5a79147, 0x06ca6351, 0x14292967,
   0x27b70a85, 0x2e1b2138, 0x4d2c6dfc, 0x53380d13, 0x650a7354, 0x766a0abb, 0x81c2c92e, 0x92722c85,
   0xa2bfe8a1, 0xa81a664b, 0xc24b8b70, 0xc76c51a3, 0xd192e819, 0xd6990624, 0xf40e3585, 0x106aa070,
   0x19a4c116, 0x1e376c08, 0x2748774c, 0x34b0bcb5, 0x391c0cb3, 0x4ed8aa4a, 0x5b9cca4f, 0x682e6ff3,
   0x748f82ee, 0x78a5636f, 0x84c87814, 0x8cc70208, 0x90befffa, 0xa4506ceb, 0xbef9a3f7, 0xc67178f2]

def rotate (n : UInt32) (x : UInt32) : UInt32 :=
  (x >>> n) ||| (x <<< (32 - n))

/-- The bytes of a number, the highest first. -/
def bigEndian (width n : Nat) : List UInt8 :=
  (List.range width).reverse.map (fun i => UInt8.ofNat (n >>> (8 * i)))

/-- A message with its end marked and its length in bits behind, in whole blocks of 64 bytes. -/
def padded (message : List UInt8) : List UInt8 :=
  let zeros := (119 - message.length % 64) % 64
  message ++ 0x80 :: (List.replicate zeros 0 ++ bigEndian 8 (8 * message.length))

def blocks (fuel : Nat) (bytes : List UInt8) : List (List UInt8) :=
  match fuel with
  | 0 => []
  | fuel + 1 => if bytes.isEmpty then [] else bytes.take 64 :: blocks fuel (bytes.drop 64)

def words : List UInt8 → List UInt32
  | a :: b :: c :: d :: rest =>
    ((a.toUInt32 <<< 24) ||| (b.toUInt32 <<< 16) ||| (c.toUInt32 <<< 8) ||| d.toUInt32) :: words rest
  | _ => []

/-- The sixteen words of a block and the words that follow from them. -/
def schedule (block : List UInt8) : List UInt32 :=
  let next (w : Array UInt32) (_ : Nat) : Array UInt32 :=
    let back (i : Nat) : UInt32 := w.getD (w.size - i) 0
    let x := back 15
    let y := back 2
    w.push (back 16 + (rotate 7 x ^^^ rotate 18 x ^^^ (x >>> 3)) + back 7
      + (rotate 17 y ^^^ rotate 19 y ^^^ (y >>> 10)))
  ((List.range 48).foldl next (words block).toArray).toList

def compressRound (state : List UInt32) (w : UInt32 × UInt32) : List UInt32 :=
  match state with
  | [a, b, c, d, e, f, g, h] =>
    let t₁ := h + (rotate 6 e ^^^ rotate 11 e ^^^ rotate 25 e)
      + ((e &&& f) ^^^ ((e ^^^ 0xffffffff) &&& g)) + w.1 + w.2
    let t₂ := (rotate 2 a ^^^ rotate 13 a ^^^ rotate 22 a)
      + ((a &&& b) ^^^ (a &&& c) ^^^ (b &&& c))
    [t₁ + t₂, a, b, c, d + t₁, e, f, g]
  | other => other

def compress (state : List UInt32) (block : List UInt8) : List UInt32 :=
  List.zipWith (· + ·) state ((roundWords.zip (schedule block)).foldl compressRound state)

def sha256 (message : List UInt8) : List UInt8 :=
  let bytes := padded message
  ((blocks bytes.length bytes).foldl compress initial).flatMap (fun w => bigEndian 4 w.toNat)

/-- The hash of a message under a key. -/
def keyed (key message : List UInt8) : List UInt8 :=
  let short := if 64 < key.length then sha256 key else key
  let block := short ++ List.replicate (64 - short.length) 0
  sha256 (block.map (· ^^^ 0x5c) ++ sha256 (block.map (· ^^^ 0x36) ++ message))

/-- Thirty-two bytes derived from a secret, for the use that `info` tells. -/
def derive (secret info : List UInt8) : List UInt8 :=
  keyed (keyed (List.replicate 32 0) secret) (info ++ [1])

def hexDigits (b : UInt8) : List Char :=
  let digit (n : Nat) : Char := Char.ofNat (if n < 10 then 48 + n else 87 + n)
  [digit (b.toNat / 16), digit (b.toNat % 16)]

def hex (bytes : List UInt8) : String :=
  String.ofList (bytes.flatMap hexDigits)

end Registrar.Hash
