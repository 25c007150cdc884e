import Registrar.Json.Reader

/-!
# Loosely written values

Pieces that the formats akin to JSON share: numbers with a sign of either kind, with digits of base
sixteen, or with a point at an end; and comments.
-/

namespace Registrar.Json.Loose

def signed : List Char → Bool × List Char
  | '-' :: rest => (true, rest)
  | '+' :: rest => (false, rest)
  | cs => (false, cs)

/-- An integer from its sign and its size. -/
def signedValue (negative : Bool) (n : Nat) : Json :=
  .number (.int (if negative then -(n : Int) else n))

/-- The number that digits write in a base, all of them below it. -/
def ofBase? (base : Nat) (digits : List Char) : Option Nat := do
  guard !digits.isEmpty
  let values ← digits.mapM hexValue?
  guard (values.all (· < base))
  return values.foldl (fun n d => base * n + d) 0

/-- The exponent behind an `e`, if there is one. -/
def exponent? : List Char → Option (Option Int)
  | [] => some none
  | c :: rest => do
    guard (c = 'e' ∨ c = 'E')
    let (negative, digits) := signed rest
    let n : Int ← ofBase? 10 digits
    return some (if negative then -n else n)

/-- A decimal number with a digit on one side of its point at least. -/
def decimal? (negative : Bool) (cs : List Char) : Option Json := do
  let (whole, rest) := spanDigits cs
  let (fraction, rest) ← match rest with
    | '.' :: rest =>
      let (digits, rest) := spanDigits rest
      guard !(whole.isEmpty && digits.isEmpty)
      some (some digits, rest)
    | _ => do
      guard !whole.isEmpty
      some (none, rest)
  match fraction, ← exponent? rest with
  | none, none => return signedValue negative (ofDigits whole)
  | fraction, exponent => .number <$> Numeral.value? ⟨negative, whole, fraction, exponent⟩

def number? (cs : List Char) : Option Json :=
  match signed cs with
  | (negative, '0' :: 'x' :: digits) => (signedValue negative) <$> ofBase? 16 digits
  | (negative, cs) => decimal? negative cs

/-- What comes behind the end of a comment, of which others may be inside it when they nest. -/
def behindComment? (nest : Bool) : Nat → List Char → Option (List Char)
  | depth, '*' :: '/' :: rest =>
    if depth = 0 then some rest else behindComment? nest (depth - 1) rest
  | depth, '/' :: '*' :: rest => behindComment? nest (if nest then depth + 1 else depth) rest
  | depth, _ :: rest => behindComment? nest depth rest
  | _, [] => none

/-- Skips blanks and comments. A comment without an end stays. -/
def skip (isBlank : Char → Bool) (nest : Bool) : Nat → List Char → List Char
  | 0, cs => cs
  | fuel + 1, cs =>
    match cs.dropWhile isBlank with
    | '/' :: '/' :: rest => skip isBlank nest fuel (rest.dropWhile (· != '\n'))
    | '/' :: '*' :: rest =>
      match behindComment? nest 0 rest with
      | some rest => skip isBlank nest fuel rest
      | none => '/' :: '*' :: rest
    | cs => cs

end Registrar.Json.Loose
